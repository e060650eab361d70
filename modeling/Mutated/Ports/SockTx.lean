import Mutated.Ports.SockQueues

/-!
# Transmitting, as small steps

The transmit path of `Sock` refines the abstract queues in the same way as
the receive path: the loop over the callback points, one round of `tx` and a
whole call are shown to be chains of `TxStep`s on the queues the rings stand
for, or to end in an exception.

## Main results

`tx_cases` says that a call of `tx` is a chain of steps; it also keeps the
memory and the tail of the byte ring, so that a write prepared before the
call can be committed after it.
-/

namespace Mutated.Ports

open Mutated.Verified.Circular
open Mutated.Verified.Exec
open Relation (ReflTransGen)

namespace Sock

variable {W : Type} {R C : ℕ+}

/-! ## One callback point -/

/-- What the loop over the callback points never changes. -/
def txFrame (s : Sock W R C) :=
  (s.rxSide, s.connected, s.txRdy, s.npoint, s.wbuf,
    s.txCbs.head, s.txCbs.tail, s.txCbs.used)

/-- The socket after the callback of the point `pt` returned, leaving the
world as `w`. -/
def fired (s : Sock W R C) (pt : IOTx W) (w : W) : Sock W R C :=
  { s with
    world := w
    txOut := sizeDiff s.txOut pt.len
    trace := s.trace ++ [.txcb pt.serial 0] ++ [.sub s.txOut pt.len] }

/-- The socket after `c` bytes were charged to the point in slot `p`. -/
def charged (s : Sock W R C) (p : Nat) (pt : IOTx W) (c : Nat) :
    Sock W R C :=
  { s with
    txCbs := { s.txCbs with
      buf := blit s.txCbs.buf p [{ pt with len := sizeDiff pt.len c }] }
    txOut := sizeDiff s.txOut c
    trace := s.trace ++ [.sub pt.len c] ++ [.sub s.txOut c] }

theorem txLoop_pay {s : Sock W R C} {p : Nat} {ps : List Nat} {c d : Nat}
    {pt : IOTx W} (hslot : s.txCbs.buf p = pt) (hlen : c < pt.len) :
    txLoop (p :: ps) c d s = .ok d (s.charged p pt c) := by
  subst hslot
  show (if c < (s.txCbs.buf p).len then _ else _ :
    EStateM Exn (Sock W R C) Nat) s = _
  rw [if_pos hlen]
  rfl

theorem txLoop_fire {s : Sock W R C} {p : Nat} {ps : List Nat} {c d : Nat}
    {pt : IOTx W} (hslot : s.txCbs.buf p = pt) (hlen : pt.len ≤ c)
    {f : TxCB W} (hcb : pt.cb = some f) {w : W}
    (hcall : f s.addr pt.cbdata 0 s.world = .ok () w) :
    txLoop (p :: ps) c d s =
      txLoop ps (c - pt.len) (d + 1) (s.fired pt w) := by
  subst hslot
  have hgo : txLoop (p :: ps) c d s = (onWorld (f s.addr
      (s.txCbs.buf p).cbdata 0) >>= fun _ => do
        emit (.txcb (s.txCbs.buf p).serial 0)
        modify fun t =>
          { t with txOut := sizeDiff t.txOut (s.txCbs.buf p).len }
        emit (.sub s.txOut (s.txCbs.buf p).len)
        txLoop ps (c - (s.txCbs.buf p).len) (d + 1)) s := by
    show (if c < (s.txCbs.buf p).len then _ else _ :
      EStateM Exn (Sock W R C) Nat) s = _
    rw [if_neg (by omega), hcb]
  exact hgo.trans ((bind_of_ok (zoom_of_ok hcall)).trans rfl)

/-- A point that is reached throws when its callback is missing or does. -/
theorem txLoop_throw {s : Sock W R C} {p : Nat} {ps : List Nat} {c d : Nat}
    {pt : IOTx W} (hslot : s.txCbs.buf p = pt) (hlen : pt.len ≤ c)
    {e : Exn} {w : W}
    (hbad : (pt.cb = none ∧ e = .badFunctionCall ∧ w = s.world) ∨
      ∃ f, pt.cb = some f ∧ f s.addr pt.cbdata 0 s.world = .error e w) :
    txLoop (p :: ps) c d s = .error e { s with world := w } := by
  subst hslot
  show (if c < (s.txCbs.buf p).len then _ else _ :
    EStateM Exn (Sock W R C) Nat) s = _
  rw [if_neg (by omega)]
  rcases hbad with ⟨hcb, rfl, rfl⟩ | ⟨f, hcb, hcall⟩
  · rw [hcb]
    rfl
  · rw [hcb]
    exact bind_of_error (zoom_of_error hcall)

/-! ## The loop over the points -/

/-- A call on the transmit path that began at the queues `q` and ended in
the exception of a callback. -/
def TxThrew (q : Queues W) (addr : Nat) (e : Exn) (s' : Sock W R C) : Prop :=
  ∃ c, ReflTransGen (Queues.TxStep R addr) q c ∧
    Queues.TxFault addr c e s'.world ∧ s'.trace = c.trace

private theorem TxThrew.prepend {q q' : Queues W} {addr : Nat} {e : Exn}
    {s' : Sock W R C} (hchain : ReflTransGen (Queues.TxStep R addr) q q')
    (h : TxThrew q' addr e s') : TxThrew q addr e s' := by
  obtain ⟨c, hrest, hfault, htrace⟩ := h
  exact ⟨c, hchain.trans hrest, hfault, htrace⟩

/-- The outcome of the loop from the `d`-th point on with `c` accepted bytes,
which counted `d'` points as fired. -/
structure PointsRan (s : Sock W R C) (d c d' : Nat) (s' : Sock W R C) :
    Prop where
  wf : s'.WF
  frame : s'.txFrame = s.txFrame
  le : d' ≤ s'.txCbs.used
  chain : ReflTransGen (Queues.TxStep R s.addr)
    (s.viewTx (s.txCbs.toList.drop d) (some c))
    (s'.viewTx (s'.txCbs.toList.drop d') none)

/-- **The loop over `tx_cbs_`** is a chain of small steps, for a ring of
points that is not full. -/
theorem txLoop_cases (n : Nat) : ∀ {s : Sock W R C} {d c : Nat}, s.WF →
    d + n = s.txCbs.used → s.txCbs.used < R →
    (∃ d' s', txLoop (s.txCbs.slots.drop d) c d s = .ok d' s' ∧
      PointsRan s d c d' s') ∨
    (∃ e s', txLoop (s.txCbs.slots.drop d) c d s = .error e s' ∧
      TxThrew (s.viewTx (s.txCbs.toList.drop d) (some c)) s.addr e s') := by
  induction n with
  | zero =>
      intro s d c h hd hroom
      have hslots : s.txCbs.slots.drop d = [] := by
        rw [List.drop_eq_nil_iff, Buffer.slots, length_cells]
        omega
      have hlist : s.txCbs.toList.drop d = [] := by
        rw [List.drop_eq_nil_iff, Buffer.length_toList]
        omega
      rw [hslots]
      refine .inl ⟨d, s, rfl, h, rfl, by omega, ?_⟩
      rw [hlist]
      exact .single (.spent _ c rfl rfl)
  | succ n ih =>
      intro s d c h hd hroom
      have hlt : d < s.txCbs.used := by omega
      have hlt' : d < s.txCbs.toList.length := by
        rw [Buffer.length_toList]
        exact hlt
      obtain ⟨pt, hpt⟩ : ∃ pt, s.txCbs.toList[d]? = some pt :=
        ⟨_, List.getElem?_eq_getElem hlt'⟩
      have hslot : s.txCbs.buf ((s.txCbs.head + d) % R) = pt := by
        rw [Buffer.getElem?_toList s.txCbs hlt] at hpt
        exact Option.some.inj hpt
      have hcons : s.txCbs.toList.drop d =
          pt :: s.txCbs.toList.drop (d + 1) := by
        rw [List.drop_eq_getElem_cons hlt', ← List.getElem?_eq_some_iff.mp hpt
          |>.2]
      have hfew : (pt :: s.txCbs.toList.drop (d + 1)).length < R := by
        rw [← hcons, List.length_drop, Buffer.length_toList]
        omega
      rw [Buffer.drop_slots hlt, hcons]
      rcases Nat.lt_or_ge c pt.len with hless | hle
      · -- the first point is not reached yet
        have hhere : (s.charged ((s.txCbs.head + d) % R) pt c).txCbs.toList.drop
            d = { pt with len := sizeDiff pt.len c } ::
              s.txCbs.toList.drop (d + 1) := by
          have hset := Buffer.blit_toList h.txCbs hlt
            { pt with len := sizeDiff pt.len c }
          simp only [charged]
          rw [hset, List.drop_set, if_neg (by omega), hcons, Nat.sub_self,
            List.set_cons_zero]
        refine .inl ⟨d, _, txLoop_pay hslot hless, ?_, rfl, ?_, ?_⟩
        · exact ⟨h.rxCbs, h.rbuf,
            ⟨h.txCbs.head_lt, h.txCbs.used_le, h.txCbs.tail_eq⟩, h.wbuf⟩
        · exact Nat.le_of_lt hlt
        · rw [hhere, hcons]
          have hstep : Queues.TxStep R s.addr _ _ := .pay
            (s.viewTx (pt :: s.txCbs.toList.drop (d + 1)) (some c)) c pt _
            rfl rfl hfew hless
          simpa [viewTx, view, charged] using ReflTransGen.single hstep
      · cases hcb : pt.cb with
        | none =>
            exact .inr ⟨_, _, txLoop_throw hslot hle (.inl ⟨hcb, rfl, rfl⟩),
              _, .refl, ⟨c, pt, _, rfl, rfl, hle, .inl ⟨hcb, rfl, rfl⟩⟩,
              rfl⟩
        | some f =>
            cases hcall : f s.addr pt.cbdata 0 s.world with
            | error e w =>
                exact .inr ⟨e, _, txLoop_throw hslot hle
                  (.inr ⟨f, hcb, hcall⟩), _, .refl,
                  ⟨c, pt, _, rfl, rfl, hle, .inr ⟨f, hcb, hcall⟩⟩, rfl⟩
            | ok u w =>
                have hstep : ReflTransGen (Queues.TxStep R s.addr)
                    (s.viewTx (pt :: s.txCbs.toList.drop (d + 1)) (some c))
                    ((s.fired pt w).viewTx (s.txCbs.toList.drop (d + 1))
                      (some (c - pt.len))) := by
                  have hfire : Queues.TxStep R s.addr _ _ := .fire
                    (s.viewTx (pt :: s.txCbs.toList.drop (d + 1)) (some c))
                    c pt _ f w rfl rfl hfew hle hcb hcall
                  simpa [viewTx, view, fired] using ReflTransGen.single hfire
                have hwf : (s.fired pt w).WF :=
                  ⟨h.rxCbs, h.rbuf, h.txCbs, h.wbuf⟩
                rw [txLoop_fire hslot hle hcb hcall]
                rcases ih hwf (d := d + 1) (c := c - pt.len)
                    (by simp only [fired]; omega) hroom with
                  ⟨d', u, hloop, hran⟩ | ⟨e, u, hloop, hthrew⟩
                · refine .inl ⟨d', u, hloop, hran.wf, hran.frame, hran.le, ?_⟩
                  rw [hcons]
                  exact hstep.trans hran.chain
                · exact .inr ⟨e, u, hloop, hthrew.prepend hstep⟩

/-! ## One round of transmitting -/

/-- What a call of the transmit path leaves alone.  The bytes leave the ring
from its head, so its memory and its tail stay as they are. -/
def txOuter (s : Sock W R C) :=
  (s.rxSide, s.connected, s.npoint, s.wbuf.buf, s.wbuf.tail)

/-- The outcome of accounting for `k` accepted bytes. -/
structure TxDispatched (s : Sock W R C) (k : Nat) (s' : Sock W R C) :
    Prop where
  wf : s'.WF
  outer : s'.txOuter = s.txOuter
  chain : ReflTransGen (Queues.TxStep R s.addr)
    (s.viewTx s.txCbs.toList (some k)) s'.view

theorem txDispatch_cases {s : Sock W R C} (h : s.WF) (k : Nat) :
    (∃ s', txDispatch k s = .ok () s' ∧ TxDispatched s k s') ∨
    (∃ e s', txDispatch k s = .error e s' ∧
      TxThrew (s.viewTx s.txCbs.toList (some k)) s.addr e s') := by
  have hvisited := Buffer.visited_eq h.txCbs
  have hused := h.txCbs.used_le
  rcases Nat.lt_or_ge s.txCbs.used R with hlt | hge
  · rw [if_neg (by omega), ← List.drop_zero (l := s.txCbs.slots)] at hvisited
    have hunfold : txDispatch k s = (txLoop (s.txCbs.slots.drop 0) k 0 >>=
        fun d => onTxCbs (Buffer.drop d)) s := by
      rw [← hvisited]
      rfl
    rw [hunfold]
    rcases txLoop_cases s.txCbs.used (c := k) h (Nat.zero_add _) hlt with
      ⟨d, t, hrun, hran⟩ | ⟨e, t, hrun, hthrew⟩
    · have hdrop := Buffer.drop_dropped hran.wf.txCbs hran.le
      have hview : ({ t with txCbs := t.txCbs.dropped d } :
          Sock W R C).view = t.viewTx (t.txCbs.toList.drop d) none := by
        simp only [view, viewTx, Buffer.dropped_toList hran.le]
      refine .inl ⟨_, (bind_of_ok hrun).trans (zoom_of_ok hdrop), ?_, ?_, ?_⟩
      · exact ⟨hran.wf.rxCbs, hran.wf.rbuf, hran.wf.txCbs.dropped hran.le,
          hran.wf.wbuf⟩
      · exact congrArg
          (fun f => (f.1, f.2.1, f.2.2.2.1, f.2.2.2.2.1.buf, f.2.2.2.2.1.tail))
          hran.frame
      · rw [hview]
        exact hran.chain
    · exact .inr ⟨e, t, bind_of_error hrun, hthrew⟩
  · rw [if_pos (by omega)] at hvisited
    have hunfold : txDispatch k s = (txLoop [] k 0 >>= fun d =>
        onTxCbs (Buffer.drop d)) s := by
      rw [← hvisited]
      rfl
    rw [hunfold]
    refine .inl ⟨s, rfl, h, rfl, .single (.overrun _ k rfl ?_)⟩
    simp only [viewTx, Buffer.length_toList]
    omega

/-- The socket after the kernel accepted `k` bytes. -/
def sent (s : Sock W R C) (k : Nat) : Sock W R C :=
  { s with
    wbuf := s.wbuf.dropped k
    trace := s.trace ++ [.accepted (s.wbuf.toList.take k)] }

theorem WF.sent {s : Sock W R C} (h : s.WF) {k : Nat}
    (hk : k ≤ s.wbuf.used) : (s.sent k).WF :=
  ⟨h.rxCbs, h.rbuf, h.txCbs, h.wbuf.dropped hk⟩

theorem sent_step {s : Sock W R C} {k : Nat} (hbusy : 0 < s.wbuf.used)
    (hk : k ≤ s.wbuf.used) :
    Queues.TxStep R s.addr s.view
      ((s.sent k).viewTx s.txCbs.toList (some k)) := by
  have hstep : Queues.TxStep R s.addr _ _ := .accepted s.view k rfl
    (fun hnil => by
      have := Buffer.toList_eq_nil.mp hnil
      omega)
    (by simpa [view] using hk)
  have hdrop := Buffer.dropped_toList hk
  simpa only [viewTx, view, sent, hdrop] using hstep

/-- The exceptions of the transmit path that come from the kernel. -/
inductive TxExn : Exn → Prop
  | wire (errno : Errno) : TxExn (.systemError errno "Sock::tx: write error")
  | long :
      TxExn (.runtimeError "Sock::tx: write sent more bytes than asked")

/-- The ways one round of `tx` can return. -/
inductive TxTurned (s : Sock W R C) : WriteRes → Bool → Sock W R C → Prop
  | idle (r : WriteRes) (hempty : s.wbuf.used = 0) : TxTurned s r false s
  | blocked (hbusy : 0 < s.wbuf.used) :
      TxTurned s (.error EAGAIN) false { s with txRdy := false }
  | ran (k : Nat) (s' : Sock W R C) (hbusy : 0 < s.wbuf.used)
      (hk : k ≤ s.wbuf.used) (hran : TxDispatched (s.sent k) k s') :
      TxTurned s (.accepted k) true s'

/-- A call of the transmit path that threw: a callback did, or the kernel's
answer made it. -/
def TxFailed (q : Queues W) (addr : Nat) (e : Exn) (s' : Sock W R C) : Prop :=
  TxThrew q addr e s' ∨
    ∃ c, ReflTransGen (Queues.TxStep R addr) q c ∧ TxExn e ∧
      s'.trace = c.trace ∧ s'.world = c.world

private theorem TxFailed.prepend {q q' : Queues W} {addr : Nat} {e : Exn}
    {s' : Sock W R C} (hchain : ReflTransGen (Queues.TxStep R addr) q q')
    (h : TxFailed q' addr e s') : TxFailed q addr e s' := by
  rcases h with hthrew | ⟨c, hrest, hexn⟩
  · exact .inl (hthrew.prepend hchain)
  · exact .inr ⟨c, hchain.trans hrest, hexn⟩

theorem txTurn_idle {s : Sock W R C} (hempty : s.wbuf.used = 0)
    (r : WriteRes) : txTurn r s = .ok false s := by
  show (if s.wbuf.used = 0 then _ else _ :
    EStateM Exn (Sock W R C) Bool) s = _
  rw [if_pos hempty]
  rfl

/-- All bytes that wait are offered to the kernel. -/
theorem txTurn_busy {s : Sock W R C} (h : s.WF) (hbusy : 0 < s.wbuf.used)
    (r : WriteRes) : txTurn r s = txSend s.wbuf.used s.wbuf.toList r s := by
  have hpeek := Buffer.peek_ok h.wbuf hbusy (Nat.le_refl _)
  have hbytes := Buffer.joinSegs_peek h.wbuf (Nat.le_refl s.wbuf.used)
  have hwhole : s.wbuf.toList.take s.wbuf.used = s.wbuf.toList :=
    List.take_of_length_le (Nat.le_of_eq (Buffer.length_toList _))
  rw [← hwhole, ← hbytes]
  show (if s.wbuf.used = 0 then _ else _ :
    EStateM Exn (Sock W R C) Bool) s = _
  rw [if_neg (by omega)]
  exact (bind_of_ok (zoom_of_ok hpeek)).trans rfl

/-- The kernel accepts some of them. -/
theorem txTurn_accepted {s : Sock W R C} (h : s.WF) (hbusy : 0 < s.wbuf.used)
    {k : Nat} (hk : k ≤ s.wbuf.used) :
    txTurn (.accepted k) s =
      (txDispatch k >>= fun _ => pure true) (s.sent k) := by
  have hdrop := Buffer.drop_dropped h.wbuf hk
  rw [txTurn_busy h hbusy]
  simp only [txSend, if_neg (Nat.not_lt.mpr hk)]
  exact (bind_of_ok (f := fun _ => (do
      onWbuf (Buffer.drop k)
      txDispatch k
      pure true : EStateM Exn (Sock W R C) Bool))
    (modify_apply (fun s => { s with
      trace := s.trace ++ [.accepted (s.wbuf.toList.take k)] }) s)).trans
    (bind_of_ok (zoom_of_ok hdrop))

/-- **What one round of `tx` does.** -/
theorem txTurn_cases {s : Sock W R C} (h : s.WF) (r : WriteRes) :
    (∃ go s', txTurn r s = .ok go s' ∧ TxTurned s r go s') ∨
    (∃ e s', txTurn r s = .error e s' ∧ TxFailed s.view s.addr e s') := by
  rcases Nat.eq_zero_or_pos s.wbuf.used with hempty | hbusy
  · exact .inl ⟨false, s, txTurn_idle hempty r, .idle r hempty⟩
  have hgo := txTurn_busy h hbusy r
  cases r with
  | error errno =>
      by_cases hblock : errno = EAGAIN
      · subst hblock
        exact .inl ⟨false, _, hgo.trans rfl, .blocked hbusy⟩
      · refine .inr ⟨_, s, hgo.trans ?_, .inr ⟨_, .refl, .wire errno, rfl,
          rfl⟩⟩
        simp only [txSend, if_neg hblock]
        rfl
  | accepted k =>
      rcases Nat.lt_or_ge s.wbuf.used k with hlong | hk
      · refine .inr ⟨_, s, hgo.trans ?_, .inr ⟨_, .refl, .long, rfl, rfl⟩⟩
        simp only [txSend, if_pos hlong]
        rfl
      have hstep := sent_step (s := s) hbusy hk
      have hrun := txTurn_accepted h hbusy hk
      rcases txDispatch_cases (h.sent hk) k with
        ⟨s', hrest, hran⟩ | ⟨e, s', hrest, hthrew⟩
      · exact .inl ⟨true, s', hrun.trans (bind_of_ok hrest),
          .ran k s' hbusy hk hran⟩
      · exact .inr ⟨e, s', hrun.trans (bind_of_error hrest),
          .inl (hthrew.prepend (.single hstep))⟩

/-! ## A whole call -/

/-- One round is a chain of small steps of the queues. -/
theorem TxTurned.spec {s s' : Sock W R C} {r : WriteRes} {go : Bool}
    (hturn : TxTurned s r go s') (h : s.WF) :
    s'.WF ∧ s'.txOuter = s.txOuter ∧
      ReflTransGen (Queues.TxStep R s.addr) s.view s'.view := by
  cases hturn with
  | idle r hempty => exact ⟨h, rfl, .refl⟩
  | blocked hbusy => exact ⟨⟨h.rxCbs, h.rbuf, h.txCbs, h.wbuf⟩, rfl, .refl⟩
  | ran k s' hbusy hk hran =>
      exact ⟨hran.wf, hran.outer,
        ReflTransGen.head (sent_step hbusy hk) hran.chain⟩

theorem addr_eq_of_txOuter {s s' : Sock W R C} (h : s'.txOuter = s.txOuter) :
    s'.addr = s.addr := congrArg (fun t => t.1.1) h

/-- **Transmitting is a chain of small steps**, up to the exception when
there is one. -/
theorem tx_cases (wout : List WriteRes) : ∀ {s : Sock W R C}, s.WF →
    (∃ s', tx wout s = .ok () s' ∧ s'.WF ∧ s'.txOuter = s.txOuter ∧
      ReflTransGen (Queues.TxStep R s.addr) s.view s'.view) ∨
    (∃ e s', tx wout s = .error e s' ∧ TxFailed s.view s.addr e s') := by
  induction wout with
  | nil =>
      intro s h
      rcases txTurn_cases h (.error EAGAIN) with
        ⟨go, s', hrun, hturn⟩ | ⟨e, s', hrun, hfailed⟩
      · exact .inl ⟨s', (bind_of_ok hrun).trans rfl, hturn.spec h⟩
      · exact .inr ⟨e, s', bind_of_error hrun, hfailed⟩
  | cons r rs ih =>
      intro s h
      rcases txTurn_cases h r with
        ⟨go, t, hrun, hturn⟩ | ⟨e, t, hrun, hfailed⟩
      · obtain ⟨hwf, houter, hchain⟩ := hturn.spec h
        have haddr := addr_eq_of_txOuter houter
        cases go with
        | false =>
            exact .inl ⟨t, (bind_of_ok hrun).trans rfl, hwf, houter, hchain⟩
        | true =>
            rcases ih hwf with
              ⟨s', hrest, hwf', houter', hchain'⟩ | ⟨e, s', hrest, hfailed⟩
            · rw [haddr] at hchain'
              exact .inl ⟨s', (bind_of_ok hrun).trans hrest, hwf',
                houter'.trans houter, hchain.trans hchain'⟩
            · rw [haddr] at hfailed
              exact .inr ⟨e, s', (bind_of_ok hrun).trans hrest,
                hfailed.prepend hchain⟩
      · exact .inr ⟨e, t, bind_of_error hrun, hfailed⟩

/-! ## The calls of the interface -/

/-- The socket after `data` was written. -/
def written (s : Sock W R C) (data : List UInt8) : Sock W R C :=
  { s with wbuf := (s.wbuf.stored data).committed data.length }

theorem WF.written {s : Sock W R C} (h : s.WF) {data : List UInt8}
    (hfit : data.length ≤ s.wbuf.space) : (s.written data).WF :=
  ⟨h.rxCbs, h.rbuf, h.txCbs, (h.wbuf.stored data).committed hfit⟩

theorem written_toList {s : Sock W R C} (h : s.WF) {data : List UInt8}
    (hfit : data.length ≤ s.wbuf.space) :
    (s.written data).wbuf.toList = s.wbuf.toList ++ data := by
  have happend := Buffer.stored_committed_toList h.wbuf hfit
    (Nat.le_refl data.length)
  rwa [List.take_length] at happend

theorem writePrepare_ok {s : Sock W R C} (h : s.WF) {len : Nat}
    (hpos : 0 < len) (hfit : len ≤ s.wbuf.space) :
    writePrepare len s = .ok (s.wbuf.tail,
      if C ≤ s.wbuf.tail + len then some 0 else none,
      min len (C - s.wbuf.tail)) s := by
  have hprep := Buffer.queuePrep_ok h.wbuf hpos hfit
  rw [writePrepare, onWbuf, zoom_of_ok hprep]

theorem writePrepare_throws {s : Sock W R C} {len : Nat}
    (hbad : len = 0 ∨ s.wbuf.space < len) :
    ∃ e, writePrepare len s = .error e s := by
  obtain ⟨e, hprep⟩ := Buffer.queuePrep_throws hbad
  refine ⟨e, ?_⟩
  rw [writePrepare, onWbuf, zoom_of_error hprep]

theorem writeCommit_ok {s : Sock W R C} (h : s.WF) {len : Nat}
    (hpos : 0 < len) (hfit : len ≤ s.wbuf.space) :
    writeCommit len s = .ok () { s with wbuf := s.wbuf.committed len } := by
  have hcommit := Buffer.queueCommit_committed h.wbuf hpos hfit
  rw [writeCommit, onWbuf, zoom_of_ok hcommit]

theorem writeCommit_throws {s : Sock W R C} {len : Nat}
    (hbad : len = 0 ∨ s.wbuf.space < len) :
    ∃ e, writeCommit len s = .error e s := by
  obtain ⟨e, hcommit⟩ := Buffer.queueCommit_throws hbad
  refine ⟨e, ?_⟩
  rw [writeCommit, onWbuf, zoom_of_error hcommit]

theorem write_ok {s : Sock W R C} (h : s.WF) {data : List UInt8}
    (hpos : 0 < data.length) (hfit : data.length ≤ s.wbuf.space) :
    write data s = .ok () (s.written data) := by
  have hfill := Buffer.fill_eq_stored h.wbuf (Nat.le_refl data.length)
  have hwf : ({ s with wbuf := s.wbuf.stored data } : Sock W R C).WF :=
    ⟨h.rxCbs, h.rbuf, h.txCbs, h.wbuf.stored data⟩
  refine (bind_of_ok (writePrepare_ok h hpos hfit)).trans ?_
  refine (bind_of_ok (zoom_of_ok (modify_apply _ _))).trans ?_
  rw [hfill]
  exact writeCommit_ok hwf hpos hfit

/-- A write that does not fit throws and changes nothing. -/
theorem write_throws {s : Sock W R C} {data : List UInt8}
    (hbad : data.length = 0 ∨ s.wbuf.space < data.length) :
    ∃ e, write data s = .error e s := by
  obtain ⟨e, hprep⟩ := writePrepare_throws hbad
  exact ⟨e, bind_of_error hprep⟩

theorem write_cases {s : Sock W R C} (h : s.WF) (data : List UInt8) :
    (0 < data.length ∧ data.length ≤ s.wbuf.space ∧
      write data s = .ok () (s.written data)) ∨
    ∃ e, write data s = .error e s := by
  by_cases hfit : 0 < data.length ∧ data.length ≤ s.wbuf.space
  · exact .inl ⟨hfit.1, hfit.2, write_ok h hfit.1 hfit.2⟩
  · exact .inr (write_throws (by omega))

/-- The number of bytes a point inserted now counts from the point before
it. -/
def pointLen (s : Sock W R C) : Nat :=
  if s.txCbs.used = 0 then s.wbuf.used else sizeDiff s.wbuf.used s.txOut

/-- The socket after a callback point was inserted. -/
def pointed (s : Sock W R C) (cb : Option (TxCB W)) (data : Option Nat) :
    Sock W R C :=
  { s with
    txCbs := (s.txCbs.stored
      [⟨s.pointLen, cb, data, s.npoint⟩]).committed 1
    txOut := s.wbuf.used
    npoint := s.npoint + 1
    trace := s.trace ++
      (if s.txCbs.used = 0 then [] else [.sub s.wbuf.used s.txOut]) ++
      [.point s.npoint s.wbuf.used] }

theorem WF.pointed {s : Sock W R C} (h : s.WF) (hroom : 0 < s.txCbs.space)
    (cb : Option (TxCB W)) (data : Option Nat) : (s.pointed cb data).WF :=
  ⟨h.rxCbs, h.rbuf, (h.txCbs.stored _).committed hroom, h.wbuf⟩

theorem pointed_toList {s : Sock W R C} (h : s.WF) (hroom : 0 < s.txCbs.space)
    (cb : Option (TxCB W)) (data : Option Nat) :
    (s.pointed cb data).txCbs.toList =
      s.txCbs.toList ++ [⟨s.pointLen, cb, data, s.npoint⟩] :=
  Buffer.stored_committed_toList h.txCbs
    (show [(⟨s.pointLen, cb, data, s.npoint⟩ : IOTx W)].length ≤
      s.txCbs.space from hroom) (Nat.le_refl 1)

theorem writeCbPoint_ok {s : Sock W R C} (h : s.WF)
    (hroom : 0 < s.txCbs.space) (cb : Option (TxCB W)) (data : Option Nat) :
    writeCbPoint cb data s = .ok () (s.pointed cb data) := by
  have hqueue := Buffer.queueEmplace_ok h.txCbs hroom
    ⟨s.pointLen, cb, data, s.npoint⟩
  by_cases hempty : s.txCbs.used = 0
  · have hlen : s.pointLen = s.wbuf.used := if_pos hempty
    rw [hlen] at hqueue
    show (if s.txCbs.used = 0 then _ else _ :
      EStateM Exn (Sock W R C) Unit) s = _
    rw [if_pos hempty]
    refine (bind_of_ok (zoom_of_ok hqueue)).trans ?_
    simp only [pointed, hlen, if_pos hempty, List.append_nil]
    rfl
  · have hlen : s.pointLen = sizeDiff s.wbuf.used s.txOut := if_neg hempty
    rw [hlen] at hqueue
    show (if s.txCbs.used = 0 then _ else _ :
      EStateM Exn (Sock W R C) Unit) s = _
    rw [if_neg hempty]
    refine (bind_of_ok (zoom_of_ok hqueue)).trans ?_
    simp only [pointed, hlen, if_neg hempty]
    rfl

/-- With no slot left `write_cb_point` throws and changes nothing. -/
theorem writeCbPoint_throws {s : Sock W R C} (hfull : s.txCbs.space = 0)
    (cb : Option (TxCB W)) (data : Option Nat) :
    ∃ e, writeCbPoint cb data s = .error e s ∧ BufferExn e := by
  by_cases hempty : s.txCbs.used = 0
  · obtain ⟨e, hqueue⟩ := Buffer.queueEmplace_throws hfull
      ⟨s.wbuf.used, cb, data, s.npoint⟩
    refine ⟨e, ?_, (Buffer.queueEmplace_throws_only _).of_error hqueue⟩
    show (if s.txCbs.used = 0 then _ else _ :
      EStateM Exn (Sock W R C) Unit) s = _
    rw [if_pos hempty]
    exact bind_of_error (zoom_of_error hqueue)
  · obtain ⟨e, hqueue⟩ := Buffer.queueEmplace_throws hfull
      ⟨sizeDiff s.wbuf.used s.txOut, cb, data, s.npoint⟩
    refine ⟨e, ?_, (Buffer.queueEmplace_throws_only _).of_error hqueue⟩
    show (if s.txCbs.used = 0 then _ else _ :
      EStateM Exn (Sock W R C) Unit) s = _
    rw [if_neg hempty]
    exact bind_of_error (zoom_of_error hqueue)

theorem writeCbPoint_cases {s : Sock W R C} (h : s.WF)
    (cb : Option (TxCB W)) (data : Option Nat) :
    (0 < s.txCbs.space ∧
      writeCbPoint cb data s = .ok () (s.pointed cb data)) ∨
    ∃ e, writeCbPoint cb data s = .error e s ∧ BufferExn e := by
  rcases Nat.eq_zero_or_pos s.txCbs.space with hfull | hroom
  · exact .inr (writeCbPoint_throws hfull cb data)
  · exact .inl ⟨hroom, writeCbPoint_ok h hroom cb data⟩

/-- What a call that transmits does, when it does not throw. -/
structure TxRan (s s' : Sock W R C) : Prop where
  wf : s'.WF
  rxSide : s'.rxSide = s.rxSide
  npoint : s'.npoint = s.npoint
  mem : s'.wbuf.buf = s.wbuf.buf
  tail : s'.wbuf.tail = s.wbuf.tail
  chain : ReflTransGen (Queues.TxStep R s.addr) s.view s'.view

private theorem TxRan.of_outer {s s' : Sock W R C} (hwf : s'.WF)
    (houter : s'.txOuter = s.txOuter)
    (hchain : ReflTransGen (Queues.TxStep R s.addr) s.view s'.view) :
    TxRan s s' :=
  ⟨hwf, congrArg (·.1) houter, congrArg (·.2.2.1) houter,
    congrArg (·.2.2.2.1) houter, congrArg (·.2.2.2.2) houter, hchain⟩

/-- **`try_tx`** transmits when the socket is ready. -/
theorem tryTx_cases {s : Sock W R C} (h : s.WF) (wout : List WriteRes) :
    (∃ s', tryTx wout s = .ok () s' ∧ TxRan s s') ∨
    (∃ e s', tryTx wout s = .error e s' ∧ TxFailed s.view s.addr e s') := by
  have hunfold : tryTx wout s = (if s.txRdy then tx wout else pure ()) s := rfl
  rw [hunfold]
  cases hrdy : s.txRdy with
  | false => exact .inl ⟨s, rfl, .of_outer h rfl .refl⟩
  | true =>
      rcases tx_cases wout h with
        ⟨s', hrun, hwf, houter, hchain⟩ | ⟨e, s', hrun, hfailed⟩
      · exact .inl ⟨s', hrun, .of_outer hwf houter hchain⟩
      · exact .inr ⟨e, s', hrun, hfailed⟩

/-- **An output event** finishes the connect first, and then transmits. -/
theorem runIo_out {s : Sock W R C} (check : ConnCheck) (rin : List ReadRes)
    (wout : List WriteRes) :
    runIo EPOLLOUT check rin wout s = runOut check wout s := rfl

/-- The exceptions of a connect that failed. -/
inductive ConnExn : Exn → Prop
  | check (errno : Errno) : ConnExn (.systemError errno
      "Sock::__socket_get_connect_error: getsockopt()")
  | failed (errno : Errno) : ConnExn (.systemError errno
      "Sock::run_io: socket failed to connect")

private theorem finishConnect_eq (s : Sock W R C) (check : ConnCheck) :
    finishConnect check s = (if s.connected then pure () else
      socketCheckConnected check >>= fun _ =>
        modify fun s => { s with connected := true } :
      EStateM Exn (Sock W R C) Unit) s := rfl

private theorem finishConnect_done {s : Sock W R C}
    (hconn : s.connected = true) (check : ConnCheck) :
    finishConnect check s = .ok () { s with connected := true } := by
  have hsame : ({ s with connected := true } : Sock W R C) = s := by
    rw [← hconn]
  rw [finishConnect_eq, if_pos hconn, hsame]
  rfl

theorem finishConnect_cases (s : Sock W R C) (check : ConnCheck) :
    finishConnect check s = .ok () { s with connected := true } ∨
    ∃ e, finishConnect check s = .error e s ∧ ConnExn e := by
  by_cases hconn : s.connected = true
  · exact .inl (finishConnect_done hconn check)
  · rw [finishConnect_eq, if_neg hconn]
    cases check with
    | ok => exact .inl rfl
    | failed errno => exact .inr ⟨_, rfl, .check errno⟩
    | soError valopt => exact .inr ⟨_, rfl, .failed valopt⟩

theorem runOut_cases {s : Sock W R C} (h : s.WF) (check : ConnCheck)
    (wout : List WriteRes) :
    (∃ s', runOut check wout s = .ok () s' ∧ TxRan s s') ∨
    (∃ e s', runOut check wout s = .error e s' ∧
      (TxFailed s.view s.addr e s' ∨ ConnExn e ∧ s' = s)) := by
  rcases finishConnect_cases s check with hconn | ⟨e, hconn, hexn⟩
  · have hgo := (bind_of_ok (f := fun _ => modify (fun s : Sock W R C =>
      { s with txRdy := true }) >>= fun _ => tx wout) hconn).trans
      (bind_of_ok (modify_apply _ _))
    have hwf : ({ s with connected := true, txRdy := true } :
        Sock W R C).WF := ⟨h.rxCbs, h.rbuf, h.txCbs, h.wbuf⟩
    rcases tx_cases wout hwf with
      ⟨s', hrun, hwf', houter, hchain⟩ | ⟨e, s', hrun, hfailed⟩
    · exact .inl ⟨s', hgo.trans hrun, hwf', congrArg (·.1) houter,
        congrArg (·.2.2.1) houter, congrArg (·.2.2.2.1) houter,
        congrArg (·.2.2.2.2) houter, hchain⟩
    · exact .inr ⟨e, s', hgo.trans hrun, .inl hfailed⟩
  · exact .inr ⟨e, s, bind_of_error hconn, .inr ⟨hexn, rfl⟩⟩

end Sock

end Mutated.Ports
