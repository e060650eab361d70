import Mutated.Ports.SockStream

/-!
# When a delivered message stays undelivered

`rx` looks at the pending operations only after a `read()` that returned
bytes.  Bytes that arrived together with an earlier message are therefore
left in `rbuf_` when the operation that wants them is queued later and the
kernel has nothing new: the call returns at `EAGAIN` before the loop.  A full
`rx_cbs_` ring is skipped by the loop altogether.

## Main results

`run_settled_iff` says of every call of every run, exactly when it leaves the
oldest operation waiting for more bytes than there are.  `not_settled_leftover`
is the run in which it does not.
-/

namespace Mutated.Ports

open Mutated.Verified.Exec
open Relation (ReflTransGen)

variable {W : Type} {R C : ℕ+}

/-! ## The condition -/

/-- The bytes of the leading answers that hand some over. -/
def arriving : List ReadRes → Nat
  | .data b bs :: rs => (b :: bs).length + arriving rs
  | _ => 0

namespace RxCall

/-- The kernel's answers to the reads of a call. -/
def answers : RxCall W → List ReadRes
  | .read _ rin => rin
  | .runIo rin => rin

/-- Whether a call receives: `read` does only when `rx_rdy_` is set. -/
def receives (s : Sock W R C) : RxCall W → Bool
  | .read _ _ => s.rxRdy
  | .runIo _ => true

/-- What keeps the oldest of the operations `ops` from being left satisfiable,
with `n` bytes buffered.  The ring of operations must not be full, and the
kernel must hand over at least one byte unless the operation needs more than
is buffered anyway; or the ring is full and the operation needs more than
there will be. -/
def SettlesWith (R n : Nat) (ops : List (IORx W)) (rin : List ReadRes) : Prop :=
  ∀ op ∈ ops.head?,
    if ops.length = R then n + arriving rin < op.need
    else 0 < arriving rin ∨ n < op.need

/-- The condition on a call and the socket before it. -/
def Settles (s : Sock W R C) (c : RxCall W) : Prop :=
  SettlesWith R s.rbuf.items (s.rxCbs.toList ++ c.issue s.nread) c.answers

/-- `P` holds of every call of a run, of the sockets before and after it. -/
def Throughout (P : Sock W R C → RxCall W → Sock W R C → Prop) :
    List (RxCall W) → Sock W R C → Prop
  | [], _ => True
  | c :: cs, s => P s c (after (c.call s)) ∧ Throughout P cs (after (c.call s))

end RxCall

/-! ## One call of `rx` -/

/-- Receiving only takes operations away. -/
theorem length_le_of_chain {C addr : Nat} {q q' : Queues W}
    (hchain : ReflTransGen (Queues.RxStep C addr) q q') :
    q'.rxCbs.length ≤ q.rxCbs.length := by
  induction hchain with
  | refl => exact Nat.le_refl _
  | tail _ hlast ih =>
      refine Nat.le_trans ?_ ih
      cases hlast with
      | recvd b bs hfit => exact Nat.le_refl _
      | skip op ops n hops hcb hlen hneed => simp [hops]
      | fire op ops cb r w hops hcb hpos hneed hcall =>
          simp [hops]
      | finish op ops hops hneed => simp [hops]

/-- A call of `rx` that returned, round by round. -/
theorem rx_turned {rin : List ReadRes} {s s' : Sock W R C} (h : s.WF)
    (hrun : Sock.rx rin s = .ok () s') :
    (Sock.RxTurned s (rin.head?.getD (.error EAGAIN)) false s') ∨
    ∃ r rs t, rin = r :: rs ∧ Sock.RxTurned s r true t ∧
      Sock.rx rs t = .ok () s' := by
  cases rin with
  | nil =>
      obtain ⟨go, t, hturn, hrest⟩ := bind_eq_ok.mp hrun
      cases hrest
      rcases Sock.rxTurn_cases h (.error EAGAIN) with
        ⟨go', u, hturn', hran⟩ | ⟨e, u, hturn', -⟩
      · cases hturn'.symm.trans hturn
        cases hran with
        | idle r hops => exact .inl (.idle _ hops)
        | blocked hops => exact .inl (.blocked hops)
      · cases hturn'.symm.trans hturn
  | cons r rs =>
      obtain ⟨go, t, hturn, hrest⟩ := bind_eq_ok.mp hrun
      rcases Sock.rxTurn_cases h r with
        ⟨go', u, hturn', hran⟩ | ⟨e, u, hturn', -⟩
      · cases hturn'.symm.trans hturn
        cases go with
        | false =>
            cases hrest
            exact .inl hran
        | true => exact .inr ⟨r, rs, t, rfl, hran, hrest⟩
      · cases hturn'.symm.trans hturn

/-- Once settled, a queue of operations that is not full stays settled. -/
theorem rx_keeps_settled (rin : List ReadRes) : ∀ {s s' : Sock W R C}, s.WF →
    Sock.rx rin s = .ok () s' → s.rxCbs.used < R → s.view.Settled →
    s'.view.Settled := by
  induction rin with
  | nil =>
      intro s s' h hrun hroom hsettled
      rcases rx_turned h hrun with hturn | ⟨r, rs, t, hnil, -⟩
      · cases hturn with
        | idle => exact hsettled
        | blocked => exact hsettled
      · cases hnil
  | cons r rs ih =>
      intro s s' h hrun hroom hsettled
      rcases rx_turned h hrun with hturn | ⟨r', rs', t, hcons, hturn, hrest⟩
      · cases hturn with
        | idle => exact hsettled
        | blocked => exact hsettled
      · cases hcons
        cases hturn with
        | ran b bs t hops hfit hran =>
            have hlen := length_le_of_chain hran.chain
            simp only [Sock.view, Buffer.length_toList] at hlen
            exact ih hran.wf hrest (Nat.lt_of_le_of_lt hlen hroom)
              (hran.settled hroom)

/-- The first operation needs at least one more byte. -/
def Queues.Live (q : Queues W) : Prop := ∀ op ∈ q.rxCbs.head?, 0 < op.need

/-- Receiving leaves no operation in front that needs nothing more. -/
theorem rx_live (rin : List ReadRes) : ∀ {s s' : Sock W R C}, s.WF →
    Sock.rx rin s = .ok () s' → s.view.Live → s'.view.Live := by
  induction rin with
  | nil =>
      intro s s' h hrun hlive
      rcases rx_turned h hrun with hturn | ⟨r, rs, t, hnil, -⟩
      · cases hturn with
        | idle => exact hlive
        | blocked => exact hlive
      · cases hnil
  | cons r rs ih =>
      intro s s' h hrun hlive
      rcases rx_turned h hrun with hturn | ⟨r', rs', t, hcons, hturn, hrest⟩
      · cases hturn with
        | idle => exact hlive
        | blocked => exact hlive
      · cases hcons
        cases hturn with
        | ran b bs t hops hfit hran =>
            refine ih hran.wf hrest ?_
            rcases Nat.lt_or_ge s.rxCbs.used R with hroom | hfull
            · intro op hop
              have := hran.settled hroom op hop
              omega
            · have hused := h.rxCbs.used_le
              rw [hran.full (show s.rxCbs.used = R by omega)]
              exact hlive

private theorem blocked_settled_iff {s : Sock W R C} {rin : List ReadRes}
    (hnone : arriving rin = 0) :
    s.view.Settled ↔
      RxCall.SettlesWith R s.rbuf.used s.rxCbs.toList rin := by
  unfold Queues.Settled RxCall.SettlesWith
  simp only [Sock.view, Buffer.length_toList, hnone, Nat.add_zero,
    Nat.lt_irrefl, false_or, ite_self]

/-- **When a call of `rx` leaves the queues settled.** -/
theorem rx_settled_iff (rin : List ReadRes) : ∀ {s s' : Sock W R C}, s.WF →
    Sock.rx rin s = .ok () s' →
    (s'.view.Settled ↔
      RxCall.SettlesWith R s.rbuf.used s.rxCbs.toList rin) := by
  have hidle : ∀ {s : Sock W R C} (rin : List ReadRes), s.rxCbs.used = 0 →
      (s.view.Settled ↔
        RxCall.SettlesWith R s.rbuf.used s.rxCbs.toList rin) := by
    intro s rin hempty
    have hnil := Buffer.toList_eq_nil.mpr hempty
    unfold Queues.Settled RxCall.SettlesWith
    simp [Sock.view, hnil]
  induction rin with
  | nil =>
      intro s s' h hrun
      rcases rx_turned h hrun with hturn | ⟨r, rs, t, hnil, -⟩
      · cases hturn with
        | idle r hempty => exact hidle [] hempty
        | blocked hops => exact blocked_settled_iff (s := s) rfl
      · cases hnil
  | cons r rs ih =>
      intro s s' h hrun
      rcases rx_turned h hrun with hturn | ⟨r', rs', t, hcons, hturn, hrest⟩
      · cases hturn with
        | idle r hempty => exact hidle _ hempty
        | blocked hops => exact blocked_settled_iff (s := s) rfl
      · cases hcons
        cases hturn with
        | ran b bs t hops hfit hran =>
            rcases Nat.lt_or_ge s.rxCbs.used R with hroom | hfull
            · -- the loop ran over these bytes, and nothing was undone since
              have hlen := length_le_of_chain hran.chain
              simp only [Sock.view, Buffer.length_toList] at hlen
              have hsettled := rx_keeps_settled rs hran.wf hrest
                (Nat.lt_of_le_of_lt hlen hroom) (hran.settled hroom)
              refine iff_of_true hsettled fun op hop => ?_
              have hpos : 0 < arriving (.data b bs :: rs) := by
                simp only [arriving, List.length_cons]
                omega
              rw [if_neg (by rw [Buffer.length_toList]; omega)]
              exact .inl hpos
            · -- the ring of operations is full: the bytes only pile up
              have hused := h.rxCbs.used_le
              have heq : s.rxCbs.used = R := by omega
              have hview := hran.full heq
              have hops' : t.rxCbs.toList = s.rxCbs.toList :=
                congrArg Queues.rxCbs hview
              have hbytes : t.rbuf.used = s.rbuf.used + (b :: bs).length := by
                have hlist := congrArg (fun q => q.rbuf.length) hview
                simp only [Sock.view, Buffer.length_toList] at hlist
                exact hlist
              rw [ih hran.wf hrest, hops', hbytes]
              unfold RxCall.SettlesWith
              simp only [Buffer.length_toList, heq, if_true, arriving,
                Nat.add_assoc]

/-! ## The calls of a run -/

/-- **When a call of a run leaves the queues settled.** -/
theorem RxCall.settled_iff {c : RxCall W} {s s' : Sock W R C} (h : s.WF)
    (hrun : c.call s = .ok () s') (hreceives : c.receives s = true) :
    s'.view.Settled ↔ c.Settles s := by
  cases c with
  | read op rin =>
      have hrdy : s.rxRdy = true := hreceives
      have hrun : Sock.read op rin s = .ok () s' := hrun
      rcases Nat.eq_zero_or_pos s.rxCbs.space with hfull | hroom
      · obtain ⟨e, hthrow, -⟩ := Sock.read_throws hfull op rin
        cases hthrow.symm.trans hrun
      have hops : (s.enqueued op).rxCbs.toList =
          s.rxCbs.toList ++ (RxCall.read op rin).issue s.nread :=
        congrArg Queues.rxCbs (Sock.enqueued_view h hroom op)
      rw [Sock.read_ok h hroom, hrdy] at hrun
      rw [rx_settled_iff rin (h.enqueued hroom op) hrun, hops]
      rfl
  | runIo rin =>
      have hrun := (Sock.runIo_in s .ok rin []).symm.trans hrun
      have hwf : ({ s with rxRdy := true } : Sock W R C).WF :=
        ⟨h.rxCbs, h.rbuf, h.txCbs, h.wbuf⟩
      rw [rx_settled_iff rin hwf hrun]
      unfold Settles
      rw [issue, List.append_nil]
      rfl

private theorem throughout_settled_iff (calls : List (RxCall W)) :
    ∀ {s s' : Sock W R C}, s.WF → RxCall.runAll calls s = .ok () s' →
      RxCall.Throughout (fun s c s' => c.receives s = true →
        (s'.view.Settled ↔ c.Settles s)) calls s := by
  induction calls with
  | nil => intro s s' h hrun; trivial
  | cons c cs ih =>
      intro s s' h hrun
      obtain ⟨⟨⟩, t, hcall, hrest⟩ := bind_eq_ok.mp hrun
      have hafter : after (c.call s) = t := by rw [hcall]; rfl
      rw [RxCall.Throughout, hafter]
      exact ⟨RxCall.settled_iff h hcall, ih (c.call_ok h hcall).wf hrest⟩

/-- **When a message is left undelivered.**  In every run, each call that
receives leaves the oldest operation needing more bytes than are buffered
exactly when it meets `Settles`. -/
theorem run_settled_iff (addr : Nat) (rmem wmem : Nat → UInt8) (w : W)
    (calls : List (RxCall W)) (s : Sock W R C)
    (hrun : RxCall.runAll calls (Sock.init addr rmem wmem w) = .ok () s) :
    RxCall.Throughout (fun s c s' => c.receives s = true →
      (s'.view.Settled ↔ c.Settles s)) calls
      (Sock.init addr rmem wmem w : Sock W R C) :=
  throughout_settled_iff calls (Sock.init_wf addr rmem wmem w) hrun

/-- An operation for two bytes, which its callback takes. -/
private def twoBytes : IORx Unit :=
  ⟨2, some fun _ _ _ _ => pure 0, 0, none, none, 0⟩

/-- Two messages arrive together while one operation is pending; the second
operation is queued when the kernel has nothing new. -/
private def leftover : List (RxCall Unit) :=
  [.read twoBytes [], .runIo [.data 1 [2, 3, 4]],
    .read twoBytes [.error EAGAIN]]

private def leftoverInit {R C : ℕ+} : Sock Unit R C :=
  Sock.init 0 (fun _ => 0) (fun _ => 0) ()

theorem run_settled_iff_leftover :
    RxCall.Throughout (fun s c s' => c.receives s = true →
      (s'.view.Settled ↔ c.Settles s)) leftover
      (leftoverInit : Sock Unit 4 8) :=
  run_settled_iff 0 (fun _ => 0) (fun _ => 0) () leftover
    (after (RxCall.runAll leftover leftoverInit))
    (eq_ok_of_returned (by decide +kernel))

/-- **The second message is in the buffer, and stays there**: the run returns,
its last call receives, and the operation for the message is not served. -/
theorem not_settled_leftover :
    returned (RxCall.runAll leftover (leftoverInit : Sock Unit 4 8)) = true ∧
    ¬ RxCall.Throughout
      (fun s c s' => c.receives s = true → s'.view.Settled)
      leftover (leftoverInit : Sock Unit 4 8) := by
  refine ⟨by decide +kernel, ?_⟩
  simp only [leftover, RxCall.Throughout]
  decide +kernel

end Mutated.Ports
