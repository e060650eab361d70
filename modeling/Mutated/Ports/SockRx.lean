import Mutated.Ports.SockQueues

/-!
# Serving the pending reads, as small steps

The receive path of `Sock` refines the abstract queues.  Here one phase of one
operation, one operation, and the loop over them are in turn shown to be a
chain of `RxStep`s on the queues the rings stand for, or to end in an exception
of a callback.
-/

namespace Mutated.Ports

open Mutated.Verified.Circular
open Mutated.Verified.Exec
open Relation (ReflTransGen)

namespace Sock

variable {W : Type} {R C : ℕ+}

/-! ## One phase of one operation -/

/-- The socket without the first `n` received bytes. -/
def eaten (s : Sock W R C) (n : Nat) : Sock W R C :=
  { s with rbuf := s.rbuf.dropped n }

/-- The ways one phase of an operation can go: what `consume` returns and
the socket it leaves. -/
inductive Consumed (s : Sock W R C) (op : IORx W) (phase : Phase)
    (len : Nat) (cb : Option (RxCB W)) :
    Bool × Nat × Option Nat → Sock W R C → Prop
  | zero (hlen : len = 0) : Consumed s op phase len cb (true, 0, none) s
  | short (hcb : cb = none) (hlt : s.rbuf.used < len) :
      Consumed s op phase len cb (false, len - s.rbuf.used, none)
        (s.eaten s.rbuf.used)
  | wait (f : RxCB W) (hcb : cb = some f) (hlt : s.rbuf.used < len) :
      Consumed s op phase len cb (false, len, none) s
  | skip (hcb : cb = none) (hle : len ≤ s.rbuf.used) :
      Consumed s op phase len cb (true, 0, none) (s.eaten len)
  | fire (f : RxCB W) (r : Nat) (w : W) (hcb : cb = some f)
      (hpos : 0 < len) (hle : len ≤ s.rbuf.used)
      (hcall : f s.addr op.cbdata
        (segsAt C s.rbuf.head (s.rbuf.toList.take len)) 0 s.world = .ok r w) :
      Consumed s op phase len cb (true, 0, some r)
        { s.eaten len with
          world := w
          trace := s.trace ++ [.rxcb op.serial phase
            (segsAt C s.rbuf.head (s.rbuf.toList.take len)) 0 r] }

/-- The segments `peek` hands out are the received bytes as the callback sees
them. -/
theorem segments_peek {b : Buffer UInt8 C} (h : b.WF) {len : Nat}
    (hfit : len ≤ b.used) :
    b.segments b.head (if C < b.head + len then some 0 else none)
      (min len (C - b.head)) (len - min len (C - b.head)) =
      segsAt C b.head (b.toList.take len) := by
  have hhead := h.head_lt
  have hused := h.used_le
  have hlen : (b.toList.take len).length = len := by
    rw [List.length_take, Buffer.length_toList, Nat.min_eq_left hfit]
  have hjoin := Buffer.joinSegs_peek h hfit
  rw [segsAt, hlen]
  by_cases hwrap : C < b.head + len
  · rw [if_pos hwrap] at hjoin ⊢
    rw [if_pos hwrap, ← hjoin]
    have hfirst : (block b.buf b.head (min len (C - b.head))).length =
        C - b.head := by
      rw [length_block, Nat.min_eq_right (by omega)]
    simp only [Buffer.segments, Buffer.joinSegs, Option.map_some,
      Option.getD_some]
    rw [List.take_left' hfirst, List.drop_left' hfirst]
  · rw [if_neg hwrap] at hjoin ⊢
    rw [if_neg hwrap, ← hjoin]
    simp [Buffer.segments, Buffer.joinSegs]

theorem consume_zero (op : IORx W) (phase : Phase) (cb : Option (RxCB W))
    (s : Sock W R C) : consume op phase 0 cb s = .ok (true, 0, none) s := rfl

theorem consume_short {s : Sock W R C} (h : s.WF) (op : IORx W)
    (phase : Phase) {len : Nat} (hlt : s.rbuf.used < len) :
    consume op phase len none s =
      .ok (false, len - s.rbuf.used, none) (s.eaten s.rbuf.used) := by
  have hdrop := Buffer.drop_dropped h.rbuf (Nat.le_refl s.rbuf.used)
  show (if len = 0 then _ else if s.rbuf.used < len then _ else _ :
    EStateM Exn (Sock W R C) _) s = _
  rw [if_neg (by omega), if_pos hlt]
  exact bind_of_ok (zoom_of_ok hdrop)

theorem consume_wait {s : Sock W R C} (op : IORx W) (phase : Phase)
    {len : Nat} (f : RxCB W) (hlt : s.rbuf.used < len) :
    consume op phase len (some f) s = .ok (false, len, none) s := by
  show (if len = 0 then _ else if s.rbuf.used < len then _ else _ :
    EStateM Exn (Sock W R C) _) s = _
  rw [if_neg (by omega), if_pos hlt]
  rfl

theorem consume_skip {s : Sock W R C} (h : s.WF) (op : IORx W)
    (phase : Phase) {len : Nat} (hpos : 0 < len) (hle : len ≤ s.rbuf.used) :
    consume op phase len none s = .ok (true, 0, none) (s.eaten len) := by
  have hdrop := Buffer.drop_dropped h.rbuf hle
  show (if len = 0 then _ else if s.rbuf.used < len then _ else _ :
    EStateM Exn (Sock W R C) _) s = _
  rw [if_neg (by omega), if_neg (by omega)]
  exact bind_of_ok (zoom_of_ok hdrop)

/-- The part of a call that hands bytes over: the callback first, then the
bytes leave the ring. -/
theorem consume_call {s : Sock W R C} (h : s.WF) (op : IORx W)
    (phase : Phase) {len : Nat} (f : RxCB W) (hpos : 0 < len)
    (hle : len ≤ s.rbuf.used) :
    consume op phase len (some f) s =
      (onWorld (f s.addr op.cbdata
          (segsAt C s.rbuf.head (s.rbuf.toList.take len)) 0) >>= fun ret => do
        emit (.rxcb op.serial phase
          (segsAt C s.rbuf.head (s.rbuf.toList.take len)) 0 ret)
        onRbuf (Buffer.drop len)
        pure (true, 0, some ret)) s := by
  have hpeek := Buffer.peek_ok h.rbuf hpos hle
  have hsegs := segments_peek h.rbuf hle
  show (if len = 0 then _ else if s.rbuf.used < len then _ else _ :
    EStateM Exn (Sock W R C) _) s = _
  rw [if_neg (by omega), if_neg (by omega), ← hsegs]
  exact bind_of_ok (zoom_of_ok hpeek)

theorem consume_fire {s : Sock W R C} (h : s.WF) (op : IORx W)
    (phase : Phase) {len : Nat} (f : RxCB W) (hpos : 0 < len)
    (hle : len ≤ s.rbuf.used) {r : Nat} {w : W}
    (hcall : f s.addr op.cbdata
      (segsAt C s.rbuf.head (s.rbuf.toList.take len)) 0 s.world = .ok r w) :
    consume op phase len (some f) s = .ok (true, 0, some r)
      { s.eaten len with
        world := w
        trace := s.trace ++ [.rxcb op.serial phase
          (segsAt C s.rbuf.head (s.rbuf.toList.take len)) 0 r] } := by
  have hdrop := Buffer.drop_dropped h.rbuf hle
  refine (consume_call h op phase f hpos hle).trans ?_
  refine (bind_of_ok (zoom_of_ok hcall)).trans ?_
  exact (bind_of_ok (modify_apply _ _)).trans (bind_of_ok (zoom_of_ok hdrop))

theorem consume_throw {s : Sock W R C} (h : s.WF) (op : IORx W)
    (phase : Phase) {len : Nat} (f : RxCB W) (hpos : 0 < len)
    (hle : len ≤ s.rbuf.used) {e : Exn} {w : W}
    (hcall : f s.addr op.cbdata
      (segsAt C s.rbuf.head (s.rbuf.toList.take len)) 0 s.world =
        .error e w) :
    consume op phase len (some f) s = .error e { s with world := w } := by
  refine (consume_call h op phase f hpos hle).trans ?_
  exact bind_of_error (zoom_of_error hcall)

/-- **What `consume` does**: one of the ways of `Consumed`, or the callback
threw. -/
theorem consume_cases {s : Sock W R C} (h : s.WF) (op : IORx W)
    (phase : Phase) (len : Nat) (cb : Option (RxCB W)) :
    (∃ r s', consume op phase len cb s = .ok r s' ∧
      Consumed s op phase len cb r s') ∨
    (∃ f e w, cb = some f ∧ 0 < len ∧ len ≤ s.rbuf.used ∧
      f s.addr op.cbdata
        (segsAt C s.rbuf.head (s.rbuf.toList.take len)) 0 s.world =
        .error e w ∧
      consume op phase len cb s = .error e { s with world := w }) := by
  rcases Nat.eq_zero_or_pos len with hlen | hpos
  · subst hlen
    exact .inl ⟨_, _, consume_zero op phase cb s, .zero rfl⟩
  rcases Nat.lt_or_ge s.rbuf.used len with hlt | hle
  · cases cb with
    | none =>
        exact .inl ⟨_, _, consume_short h op phase hlt, .short rfl hlt⟩
    | some f =>
        exact .inl ⟨_, _, consume_wait op phase f hlt, .wait f rfl hlt⟩
  cases cb with
  | none =>
      exact .inl ⟨_, _, consume_skip h op phase hpos hle, .skip rfl hle⟩
  | some f =>
      cases hcall : f s.addr op.cbdata
          (segsAt C s.rbuf.head (s.rbuf.toList.take len)) 0 s.world with
      | ok r w =>
          exact .inl ⟨_, _, consume_fire h op phase f hpos hle hcall,
            .fire f r w rfl hpos hle hcall⟩
      | error e w =>
          exact .inr ⟨f, e, w, rfl, hpos, hle, hcall,
            consume_throw h op phase f hpos hle hcall⟩

/-! ## One operation -/

/-- What the receive path never changes: everything the transmit path works
on, the ring of operations apart from their contents, and the flags. -/
def rxFrame (s : Sock W R C) :=
  (s.txSide, s.nread, s.rxRdy, s.rxCbs.head, s.rxCbs.tail, s.rxCbs.used)

/-- The socket after the operation in slot `p` was written over. -/
def putRx (s : Sock W R C) (p : Nat) (op : IORx W) : Sock W R C :=
  { s with rxCbs := { s.rxCbs with buf := blit s.rxCbs.buf p [op] } }

theorem setRx_ok (s : Sock W R C) (p : Nat) (op : IORx W) :
    setRx p op s = .ok () (s.putRx p op) := rfl

theorem WF.putRx {s : Sock W R C} (h : s.WF) (p : Nat) (op : IORx W) :
    (s.putRx p op).WF :=
  ⟨⟨h.rxCbs.head_lt, h.rxCbs.used_le, h.rxCbs.tail_eq⟩, h.rbuf, h.txCbs,
    h.wbuf⟩

theorem putRx_toList {s : Sock W R C} (h : s.WF) {d : Nat}
    (hd : d < s.rxCbs.used) (op : IORx W) :
    (s.putRx ((s.rxCbs.head + d) % R) op).rxCbs.toList =
      s.rxCbs.toList.set d op :=
  Buffer.blit_toList h.rxCbs hd op

/-- The operation after one phase gave the result `r`. -/
def advance (op : IORx W) (r : Bool × Nat × Option Nat) : IORx W :=
  if 0 < op.hdrlen then
    { op with hdrlen := r.2.1, bodylen := r.2.2.getD op.bodylen }
  else { op with bodylen := r.2.1 }

namespace Consumed

variable {s s' : Sock W R C} {op : IORx W} {phase : Phase} {len : Nat}
  {cb : Option (RxCB W)} {r : Bool × Nat × Option Nat}

theorem rxCbs_eq (hc : Consumed s op phase len cb r s') :
    s'.rxCbs = s.rxCbs := by
  cases hc <;> rfl

theorem frame (hc : Consumed s op phase len cb r s') :
    s'.rxFrame = s.rxFrame := by
  cases hc <;> rfl

theorem wf (hc : Consumed s op phase len cb r s') (h : s.WF) : s'.WF := by
  have heaten : ∀ n, n ≤ s.rbuf.used → (s.eaten n).WF := fun n hn =>
    ⟨h.rxCbs, h.rbuf.dropped hn, h.txCbs, h.wbuf⟩
  cases hc with
  | zero => exact h
  | short => exact heaten _ (Nat.le_refl _)
  | wait => exact h
  | skip hcb hle => exact heaten _ hle
  | fire f r w hcb hpos hle hcall =>
      exact ⟨h.rxCbs, h.rbuf.dropped hle, h.txCbs, h.wbuf⟩

/-- A phase that is done needs nothing more; one that is not needs more than
is left. -/
theorem done (hc : Consumed s op phase len cb r s') :
    if r.1 then r.2.1 = 0 else s'.rbuf.used < r.2.1 := by
  cases hc with
  | zero => exact rfl
  | short hcb hlt =>
      show s.rbuf.used - s.rbuf.used < len - s.rbuf.used
      omega
  | wait f hcb hlt => exact hlt
  | skip => exact rfl
  | fire => exact rfl

/-- **One phase is a small step** of the queues, or none. -/
theorem chain (hc : Consumed s op phase len cb r s') (hphase : op.phase = phase)
    (hlen : op.need = len) (hcb : op.cb = cb) (ops : List (IORx W)) :
    ReflTransGen (Queues.RxStep C s.addr) (s.viewRx (op :: ops))
      (s'.viewRx (advance op r :: ops)) := by
  subst hphase hlen hcb
  have hskip : ∀ n done, n ≤ op.need → n ≤ s.rbuf.used → op.cb = none →
      ReflTransGen (Queues.RxStep C s.addr) (s.viewRx (op :: ops))
        ((s.eaten n).viewRx (advance op (done, op.need - n, none) :: ops)) := by
    intro n done hneed hle hcb
    have hview : (s.eaten n).viewRx
        (advance op (done, op.need - n, none) :: ops) =
        { (s.viewRx (op :: ops)).eat C n with rxCbs := op.skip n :: ops } := by
      have hdrop := Buffer.dropped_toList hle
      have hop : advance op (done, op.need - n, none) = op.skip n := by
        unfold advance IORx.skip IORx.need
        split <;> simp_all
      simp only [viewRx, view, eaten, Queues.eat, hdrop, hop,
        Buffer.dropped_head]
    rw [hview]
    exact .single (.skip _ op ops n rfl hcb
      (by simpa [viewRx, view] using hle) hneed)
  have hstay : ∀ done, advance op (done, op.need, none) = op := by
    intro done
    unfold advance IORx.need
    split <;> simp
  cases hc with
  | zero hlen =>
      have hop := hstay true
      rw [hlen] at hop
      rw [hop]
  | short hcb hlt =>
      exact hskip s.rbuf.used false (by omega) (Nat.le_refl _) hcb
  | wait f hcb hlt => rw [hstay]
  | skip hcb hle =>
      have hwhole := hskip op.need true (Nat.le_refl _) hle hcb
      rwa [Nat.sub_self] at hwhole
  | fire f r w hcb hpos hle hcall =>
      have hdrop := Buffer.dropped_toList hle
      have hop : advance op (true, 0, some r) = op.fire r := by
        unfold advance IORx.fire
        split <;> simp
      have hstep : Queues.RxStep C s.addr _ _ := .fire
        (s.viewRx (op :: ops)) op ops f r w rfl hcb hpos
        (by simpa [viewRx, view] using hle) hcall
      rw [hop]
      simpa only [viewRx, view, eaten, Queues.eat, hdrop,
        Buffer.dropped_head] using ReflTransGen.single hstep

end Consumed

/-- The outcome of a call on the receive path that began at the queues `q`
and threw: a chain of small steps, then the callback that threw. -/
def RxThrew (q : Queues W) (addr : Nat) (e : Exn) (s' : Sock W R C) : Prop :=
  ∃ c, ReflTransGen (Queues.RxStep C addr) q c ∧
    Queues.RxFault C addr c e s'.world ∧ s'.trace = c.trace

/-- The outcome of `rxOp` on the `d`-th operation `op`, now `op'`. -/
structure OpRan (s : Sock W R C) (d : Nat) (op op' : IORx W) (done : Bool)
    (s' : Sock W R C) : Prop where
  wf : s'.WF
  frame : s'.rxFrame = s.rxFrame
  slots : s'.rxCbs.toList = s.rxCbs.toList.set d op'
  chain : ∀ ops, ReflTransGen (Queues.RxStep C s.addr)
    (s.viewRx (op :: ops)) (s'.viewRx (op' :: ops))
  finished : if done then op'.need = 0 else s'.rbuf.used < op'.need

/-- A callback that throws inside `consume`. -/
private theorem threw_of_call {s : Sock W R C} {op : IORx W} {len : Nat}
    {cb : Option (RxCB W)} {f : RxCB W} {e : Exn} {w : W}
    (hlen : op.need = len) (hopcb : op.cb = cb) (hcb : cb = some f)
    (hpos : 0 < len) (hle : len ≤ s.rbuf.used)
    (hcall : f s.addr op.cbdata
      (segsAt C s.rbuf.head (s.rbuf.toList.take len)) 0 s.world = .error e w)
    (ops : List (IORx W)) :
    RxThrew (s.viewRx (op :: ops)) s.addr e { s with world := w } := by
  subst hlen hopcb
  exact ⟨_, .refl, ⟨op, ops, f, rfl, hcb, hpos,
    by simpa [viewRx, view] using hle, hcall⟩, rfl⟩

theorem RxThrew.prepend {q q' : Queues W} {addr : Nat} {e : Exn}
    {s' : Sock W R C} (hchain : ReflTransGen (Queues.RxStep C addr) q q')
    (h : RxThrew q' addr e s') : RxThrew q addr e s' := by
  obtain ⟨c, hrest, hfault, htrace⟩ := h
  exact ⟨c, hchain.trans hrest, hfault, htrace⟩

private theorem OpRan.addr_eq {s s' : Sock W R C}
    (h : s'.rxFrame = s.rxFrame) : s'.addr = s.addr :=
  congrArg (fun t => t.1.1) h

/-- What is left of an operation whose header is done. -/
private theorem rxBody_cases {s : Sock W R C} (h : s.WF) {d : Nat}
    (hd : d < s.rxCbs.used) {op : IORx W} (hhdr : op.hdrlen = 0) :
    (∃ done op' s', rxBody ((s.rxCbs.head + d) % R) op s = .ok done s' ∧
      OpRan s d op op' done s') ∨
    (∃ e s', rxBody ((s.rxCbs.head + d) % R) op s = .error e s' ∧
      ∀ ops, RxThrew (s.viewRx (op :: ops)) s.addr e s') := by
  have hphase : op.phase = .body := by simp [IORx.phase, hhdr]
  have hneed : op.need = op.bodylen := by simp [IORx.need, hhdr]
  have hcb : op.cb = op.bodycb := by simp [IORx.cb, hhdr]
  rcases consume_cases h op .body op.bodylen op.bodycb with
    ⟨r, t, hrun, hran⟩ | ⟨f, e, w, hf, hpos, hle, hcall, hrun⟩
  · have hwf := hran.wf h
    have hring := hran.rxCbs_eq
    have hadv : advance op r = { op with bodylen := r.2.1 } := by
      simp [advance, hhdr]
    refine .inl ⟨r.1, advance op r, _, (bind_of_ok hrun).trans rfl, ?_⟩
    refine ⟨hwf.putRx _ _, hran.frame, ?_, ?_, ?_⟩
    · rw [← hring] at hd ⊢
      rw [hadv]
      exact putRx_toList hwf hd _
    · exact hran.chain hphase hneed hcb
    · have hneed' : (advance op r).need = r.2.1 := by
        simp [hadv, IORx.need, hhdr]
      rw [hneed']
      exact hran.done
  · exact .inr ⟨e, _, bind_of_error hrun,
      threw_of_call hneed hcb hf hpos hle hcall⟩

/-- The operation after its header phase gave the result `r`. -/
private def headed (op : IORx W) (r : Bool × Nat × Option Nat) : IORx W :=
  { op with hdrlen := r.2.1, bodylen := r.2.2.getD op.bodylen }

/-- The header phase of an operation, whether or not it is over already. -/
private theorem rxHeader_cases {s : Sock W R C} (h : s.WF) (op : IORx W) :
    (∃ r t, consume op .hdr op.hdrlen op.hdrcb s = .ok r t ∧ t.WF ∧
      t.rxFrame = s.rxFrame ∧ t.rxCbs = s.rxCbs ∧
      (∀ ops, ReflTransGen (Queues.RxStep C s.addr) (s.viewRx (op :: ops))
        (t.viewRx (headed op r :: ops))) ∧
      if r.1 then (headed op r).hdrlen = 0
      else t.rbuf.used < (headed op r).need) ∨
    (∃ e s', consume op .hdr op.hdrlen op.hdrcb s = .error e s' ∧
      ∀ ops, RxThrew (s.viewRx (op :: ops)) s.addr e s') := by
  rcases Nat.eq_zero_or_pos op.hdrlen with hzero | hpos
  · have hstay : headed op (true, 0, none) = op := by
      simp [headed, ← hzero]
    refine .inl ⟨(true, 0, none), s, ?_, h, rfl, rfl, ?_, rfl⟩
    · rw [hzero]
      exact consume_zero op .hdr op.hdrcb s
    · intro ops
      rw [hstay]
  have hphase : op.phase = .hdr := by simp [IORx.phase, hpos]
  have hneed : op.need = op.hdrlen := by simp [IORx.need, hpos]
  have hcb : op.cb = op.hdrcb := by simp [IORx.cb, hpos]
  have hadv : ∀ r, advance op r = headed op r := fun r => by
    simp [advance, headed, hpos]
  rcases consume_cases h op .hdr op.hdrlen op.hdrcb with
    ⟨r, t, hrun, hran⟩ | ⟨f, e, w, hf, hlt, hle, hcall, hrun⟩
  · refine .inl ⟨r, t, hrun, hran.wf h, hran.frame, hran.rxCbs_eq, ?_, ?_⟩
    · rw [← hadv]
      exact hran.chain hphase hneed hcb
    · have hdone := hran.done
      cases hr : r.1 with
      | true =>
          rw [hr] at hdone
          exact hdone
      | false =>
          rw [hr] at hdone
          have hleft : t.rbuf.used < r.2.1 := hdone
          have hneed' : (headed op r).need = r.2.1 :=
            if_pos (show 0 < r.2.1 by omega)
          rw [hneed']
          exact hleft
  · exact .inr ⟨e, _, hrun, threw_of_call hneed hcb hf hlt hle hcall⟩

/-- **What `rxOp` does** on the `d`-th pending operation. -/
theorem rxOp_cases {s : Sock W R C} (h : s.WF) {d : Nat}
    (hd : d < s.rxCbs.used) {op : IORx W}
    (hop : s.rxCbs.toList[d]? = some op) :
    (∃ done op' s', rxOp ((s.rxCbs.head + d) % R) s = .ok done s' ∧
      OpRan s d op op' done s') ∨
    (∃ e s', rxOp ((s.rxCbs.head + d) % R) s = .error e s' ∧
      ∀ ops, RxThrew (s.viewRx (op :: ops)) s.addr e s') := by
  have hslot : s.rxCbs.buf ((s.rxCbs.head + d) % R) = op := by
    rw [Buffer.getElem?_toList s.rxCbs hd] at hop
    exact Option.some.inj hop
  have hunfold : rxOp ((s.rxCbs.head + d) % R) s =
      (consume op .hdr op.hdrlen op.hdrcb >>= fun r =>
        setRx ((s.rxCbs.head + d) % R) (headed op r) >>= fun _ =>
          if r.1 then rxBody ((s.rxCbs.head + d) % R) (headed op r)
          else pure false) s := by
    rw [← hslot]
    rfl
  rw [hunfold]
  rcases rxHeader_cases h op with
    ⟨r, t, hrun, hwf, hframe, hring, hchain, hdone⟩ | ⟨e, t, hrun, hthrew⟩
  · rw [← hring] at hd ⊢
    have hput := putRx_toList hwf hd (headed op r)
    have hgo := (bind_of_ok (f := fun r =>
      setRx ((t.rxCbs.head + d) % R) (headed op r) >>= fun _ =>
        if r.1 then rxBody ((t.rxCbs.head + d) % R) (headed op r)
        else pure false) hrun).trans (bind_of_ok (setRx_ok t _ _))
    rw [hgo]
    cases hr : r.1 with
    | false =>
        rw [hr] at hdone
        exact .inl ⟨false, headed op r, _, rfl, hwf.putRx _ _, hframe,
          hring ▸ hput, hchain, hdone⟩
    | true =>
        rw [hr] at hdone
        rcases rxBody_cases (hwf.putRx ((t.rxCbs.head + d) % R) (headed op r))
            hd hdone with ⟨done, op', u, hbody, hran⟩ | ⟨e, u, hbody, hthrew⟩
        · refine .inl ⟨done, op', u, hbody, hran.wf,
            hran.frame.trans hframe, ?_, ?_, hran.finished⟩
          · rw [hran.slots, hput, List.set_set, hring]
          · intro ops
            rw [← OpRan.addr_eq hframe] at hchain ⊢
            exact (hchain ops).trans (hran.chain ops)
        · refine .inr ⟨e, u, hbody, fun ops => ?_⟩
          rw [← OpRan.addr_eq hframe] at hchain ⊢
          exact (hthrew ops).prepend (hchain ops)
  · exact .inr ⟨e, t, bind_of_error hrun, hthrew⟩

/-! ## The loop over the operations -/

/-- The outcome of the loop from the `d`-th operation on, which counted `d'`
operations as done. -/
structure LoopRan (s : Sock W R C) (d d' : Nat) (s' : Sock W R C) : Prop where
  wf : s'.WF
  frame : s'.rxFrame = s.rxFrame
  le : d' ≤ s'.rxCbs.used
  chain : ReflTransGen (Queues.RxStep C s.addr)
    (s.viewRx (s.rxCbs.toList.drop d)) (s'.viewRx (s'.rxCbs.toList.drop d'))
  settled : (s'.viewRx (s'.rxCbs.toList.drop d')).Settled

theorem used_eq_of_frame {s s' : Sock W R C} (h : s'.rxFrame = s.rxFrame) :
    s'.rxCbs.used = s.rxCbs.used := congrArg (fun t => t.2.2.2.2.2) h

theorem head_eq_of_frame {s s' : Sock W R C} (h : s'.rxFrame = s.rxFrame) :
    s'.rxCbs.head = s.rxCbs.head := congrArg (fun t => t.2.2.2.1) h

theorem slots_eq_of_frame {s s' : Sock W R C} (h : s'.rxFrame = s.rxFrame) :
    s'.rxCbs.slots = s.rxCbs.slots := by
  rw [Buffer.slots, Buffer.slots, used_eq_of_frame h, head_eq_of_frame h]

/-- **The loop over `rx_cbs_`** is a chain of small steps that ends when no
operation is left or the next one needs more bytes. -/
theorem rxLoop_cases (n : Nat) : ∀ {s : Sock W R C} {d : Nat}, s.WF →
    d + n = s.rxCbs.used →
    (∃ d' s', rxLoop (s.rxCbs.slots.drop d) d s = .ok d' s' ∧
      LoopRan s d d' s') ∨
    (∃ e s', rxLoop (s.rxCbs.slots.drop d) d s = .error e s' ∧
      RxThrew (s.viewRx (s.rxCbs.toList.drop d)) s.addr e s') := by
  induction n with
  | zero =>
      intro s d h hd
      have hslots : s.rxCbs.slots.drop d = [] := by
        rw [List.drop_eq_nil_iff, Buffer.slots, length_cells]
        omega
      have hlist : s.rxCbs.toList.drop d = [] := by
        rw [List.drop_eq_nil_iff, Buffer.length_toList]
        omega
      rw [hslots]
      refine .inl ⟨d, s, rfl, h, rfl, by omega, .refl, ?_⟩
      rw [hlist]
      intro op hop
      cases hop
  | succ n ih =>
      intro s d h hd
      have hlt : d < s.rxCbs.used := by omega
      have hlt' : d < s.rxCbs.toList.length := by
        rw [Buffer.length_toList]
        exact hlt
      have hcons := List.drop_eq_getElem_cons hlt'
      have hop := List.getElem?_eq_getElem hlt'
      rw [Buffer.drop_slots hlt]
      rcases rxOp_cases h hlt hop with
        ⟨done, op', t, hrun, hran⟩ | ⟨e, t, hrun, hthrew⟩
      · have hused := used_eq_of_frame hran.frame
        have hkeep : t.rxCbs.toList.drop (d + 1) =
            s.rxCbs.toList.drop (d + 1) := by
          rw [hran.slots, List.drop_set_of_lt (Nat.lt_succ_self d)]
        have hchain := hran.chain (s.rxCbs.toList.drop (d + 1))
        rw [← hcons, ← hkeep] at hchain
        have hfinished := hran.finished
        cases done with
        | false =>
            have hhere : t.rxCbs.toList.drop d =
                op' :: t.rxCbs.toList.drop (d + 1) := by
              rw [hkeep, hran.slots, List.drop_set, if_neg (by omega), hcons,
                Nat.sub_self, List.set_cons_zero]
            refine .inl ⟨d, t, bind_of_ok hrun, hran.wf, hran.frame,
              by omega, ?_, ?_⟩
            · rw [hhere]
              exact hchain
            · rw [hhere]
              intro op hop
              cases hop
              simpa [viewRx, view] using hfinished
        | true =>
            have hstep : Queues.RxStep C s.addr
                (t.viewRx (op' :: t.rxCbs.toList.drop (d + 1)))
                (t.viewRx (t.rxCbs.toList.drop (d + 1))) :=
              .finish _ op' _ rfl hfinished
            have hnext := hchain.tail hstep
            have hgo := bind_of_ok (f := fun done => if done then
              rxLoop (s.rxCbs.slots.drop (d + 1)) (d + 1) else pure d) hrun
            rw [← OpRan.addr_eq hran.frame] at hnext ⊢
            rw [← slots_eq_of_frame hran.frame] at hgo ⊢
            rcases ih hran.wf (d := d + 1) (by omega) with
              ⟨d', u, hloop, hrest⟩ | ⟨e, u, hloop, hthrew⟩
            · refine .inl ⟨d', u, hgo.trans hloop, hrest.wf,
                hrest.frame.trans hran.frame, hrest.le, ?_, hrest.settled⟩
              rw [← OpRan.addr_eq hran.frame]
              exact hnext.trans hrest.chain
            · exact .inr ⟨e, u, hgo.trans hloop, hthrew.prepend hnext⟩
      · refine .inr ⟨e, t, bind_of_error hrun, ?_⟩
        rw [hcons]
        exact hthrew _

end Sock

end Mutated.Ports
