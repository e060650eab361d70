import Mutated.Ports.SockWrites
import Mutated.Verified.Triple

/-!
# What the callbacks keep, the socket keeps

A socket reaches the rest of the program only through the callbacks in its two
rings.  If each of them keeps a property `P` of the world, or throws and leaves
`E` behind, then so does every function of the socket: whatever the kernel
answers, whichever callbacks are called, how often and in which order.  Unlike
the properties of the queues, this needs no invariant of the rings, and it
speaks of the exception and of the world that it leaves behind.

What the socket itself throws is always an exception of the source, so that
`E` tells what else its callbacks can come to.

## Main results

`runIo_tends`, `tryTx_tends` and `read_tends`.
-/

namespace Mutated.Ports

open Mutated.Verified.Circular
open Mutated.Verified.Exec

variable {W α β : Type} {R C : ℕ+} {A : RxCB W → Prop}
  {B : TxCB W → Option Nat → Prop} {P : W → Prop} {E : Exn → W → Prop}

/-! ## The rings change their slots only by writes -/

theorem Buffer.keeps_buf_drop {T : Type} {N : ℕ+} (n : Nat) :
    Keeps Buffer.buf (Buffer.drop n : EStateM Exn (Buffer T N) Unit) := by
  intro b
  unfold Buffer.drop
  split
  · rfl
  · split
    · rfl
    · split
      · rfl
      · split <;> rfl

theorem Buffer.keeps_buf_queue {T : Type} {N : ℕ+} (n : Nat) :
    Keeps Buffer.buf (Buffer.queue n : EStateM Exn (Buffer T N) _) := by
  have hprep : ∀ n, Keeps Buffer.buf
      (Buffer.queuePrep n : EStateM Exn (Buffer T N) _) := by
    intro n b
    unfold Buffer.queuePrep
    repeat' split
    all_goals rfl
  have hcommit : ∀ n, Keeps Buffer.buf
      (Buffer.queueCommit n : EStateM Exn (Buffer T N) _) := by
    intro n b
    unfold Buffer.queueCommit
    repeat' split
    all_goals rfl
  exact keeps_get fun b => keeps_bind (hprep _) fun _ =>
    keeps_bind (hcommit _) fun _ => keeps_pure _

/-! ## The invariant -/

/-- The callbacks with `A` and `B` keep `P`, or throw and leave `E` behind. -/
structure Harmless (A : RxCB W → Prop) (B : TxCB W → Option Nat → Prop)
    (P : W → Prop) (E : Exn → W → Prop) : Prop where
  weaken : ∀ e w, e.Defined → P w → E e w
  rx : ∀ f, A f → ∀ addr data segs,
    Triple P (f addr data segs 0) (fun _ => P) E
  tx : ∀ f data, B f data → ∀ addr,
    Triple P (f addr data 0) (fun _ => P) E

/-- **The invariant**: `P` holds of the world, and what the slots of the rings
hold has `A` and `B`, also in slots that are not occupied. -/
structure Tended (A : RxCB W → Prop) (B : TxCB W → Option Nat → Prop)
    (P : W → Prop) (s : Sock W R C) : Prop where
  world : P s.world
  hdr : ∀ j f, (s.rxCbs.buf j).hdrcb = some f → A f
  body : ∀ j f, (s.rxCbs.buf j).bodycb = some f → A f
  point : ∀ j f, (s.txCbs.buf j).cb = some f → B f (s.txCbs.buf j).cbdata

/-- A call keeps the invariant; if it throws, it leaves `E` behind. -/
def Tends (A : RxCB W → Prop) (B : TxCB W → Option Nat → Prop) (P : W → Prop)
    (E : Exn → W → Prop) (x : EStateM Exn (Sock W R C) α) : Prop :=
  Triple (Tended A B P) x (fun _ => Tended A B P) fun e s => E e s.world

/-- What the invariant speaks of. -/
def Sock.tended (s : Sock W R C) := (s.world, s.rxCbs.buf, s.txCbs.buf)

theorem Tended.congr {s t : Sock W R C} (h : Tended A B P s)
    (hsame : t.tended = s.tended) : Tended A B P t := by
  obtain ⟨hworld, hrings⟩ := Prod.mk.inj hsame
  obtain ⟨hrx, htx⟩ := Prod.mk.inj hrings
  refine ⟨?_, ?_, ?_, ?_⟩
  · rw [hworld]; exact h.world
  · rw [hrx]; exact h.hdr
  · rw [hrx]; exact h.body
  · rw [htx]; exact h.point

/-- Another property of the world. -/
theorem Tended.mono {Q : W → Prop} {s : Sock W R C} (h : Tended A B P s)
    (hQ : P s.world → Q s.world) : Tended A B Q s :=
  ⟨hQ h.world, h.hdr, h.body, h.point⟩

/-- A new socket has no callbacks. -/
theorem Tended.init {addr : Nat} {rmem wmem : Nat → UInt8} {w : W} (h : P w) :
    Tended A B P (Sock.init addr rmem wmem w : Sock W R C) :=
  ⟨h, nofun, nofun, nofun⟩

/-! ## Calls -/

/-- A call on the world may change what is known of it. -/
theorem tended_onWorld {Q : W → Prop} {x : EStateM Exn W α}
    (hx : Triple P x (fun _ => Q) E) :
    Triple (Tended A B P) (Sock.onWorld x : EStateM Exn (Sock W R C) α)
      (fun _ => Tended A B Q) fun e s => E e s.world := by
  intro s hs
  cases hrun : x s.world with
  | ok a w =>
      rw [Sock.onWorld, zoom_of_ok hrun]
      exact .ok ⟨hx.of_ok hs.world hrun, hs.hdr, hs.body, hs.point⟩
  | error e w =>
      rw [Sock.onWorld, zoom_of_error hrun]
      exact .error (hx.of_error hs.world hrun)

namespace Tends

theorem pure (a : α) :
    Tends A B P E (pure a : EStateM Exn (Sock W R C) α) :=
  Triple.pure fun _ h => h

theorem bind {x : EStateM Exn (Sock W R C) α}
    {f : α → EStateM Exn (Sock W R C) β} (hx : Tends A B P E x)
    (hf : ∀ a, Tends A B P E (f a)) : Tends A B P E (x >>= f) :=
  Triple.bind hx hf

/-- A look at the state, for which the invariant holds. -/
theorem get {f : Sock W R C → EStateM Exn (Sock W R C) β}
    (hf : ∀ s, Tended A B P s → Tends A B P E (f s)) :
    Tends A B P E (get >>= f) := fun s hs => hf s hs s hs

theorem ite {p : Prop} [Decidable p] {x y : EStateM Exn (Sock W R C) α}
    (hx : Tends A B P E x) (hy : Tends A B P E y) :
    Tends A B P E (if p then x else y) := Triple.ite (fun _ => hx) fun _ => hy

theorem modify {f : Sock W R C → Sock W R C}
    (h : ∀ s, (f s).tended = s.tended) :
    Tends A B P E (modify f : EStateM Exn (Sock W R C) PUnit) :=
  Triple.modify fun s hs => hs.congr (h s)

theorem emit (ev : Event) :
    Tends A B P E (Sock.emit ev : EStateM Exn (Sock W R C) Unit) :=
  modify fun _ => rfl

/-- An operation is written to a slot. -/
theorem setRx (p : Nat) {op : IORx W} (hhdr : ∀ f, op.hdrcb = some f → A f)
    (hbody : ∀ f, op.bodycb = some f → A f) :
    Tends A B P E (Sock.setRx p op : EStateM Exn (Sock W R C) Unit) := by
  intro s hs
  refine .ok ⟨hs.world, fun j f hf => ?_, fun j f hf => ?_, hs.point⟩
  · change (blit s.rxCbs.buf p [op] j).hdrcb = some f at hf
    rw [blit_singleton] at hf
    split at hf
    · exact hhdr f hf
    · exact hs.hdr j f hf
  · change (blit s.rxCbs.buf p [op] j).bodycb = some f at hf
    rw [blit_singleton] at hf
    split at hf
    · exact hbody f hf
    · exact hs.body j f hf

/-- A point in a slot after another was written. -/
private theorem point_blit {s : Sock W R C} (hs : Tended A B P s) (p : Nat)
    {pt : IOTx W} (hpt : ∀ f, pt.cb = some f → B f pt.cbdata) (j : Nat)
    {f : TxCB W} (hf : (blit s.txCbs.buf p [pt] j).cb = some f) :
    B f (blit s.txCbs.buf p [pt] j).cbdata := by
  rw [blit_singleton] at hf ⊢
  split at hf
  · next hj =>
      rw [if_pos hj]
      exact hpt f hf
  · next hj =>
      rw [if_neg hj]
      exact hs.point j f hf

/-- A point is written to a slot. -/
theorem setTx (p : Nat) {pt : IOTx W}
    (hpt : ∀ f, pt.cb = some f → B f pt.cbdata) :
    Tends A B P E (Sock.setTx p pt : EStateM Exn (Sock W R C) Unit) :=
  fun _ hs => .ok ⟨hs.world, hs.hdr, hs.body, fun j _ hf =>
    point_blit hs p hpt j hf⟩

section Harmless

variable (h : Harmless A B P E)
include h

theorem throw {e : Exn} (he : e.Defined) :
    Tends A B P E (throw e : EStateM Exn (Sock W R C) α) :=
  Triple.throw fun _ hs => h.weaken _ _ he hs.world

/-- A call that leaves alone what the invariant speaks of, and throws what a
buffer throws. -/
theorem of_keeps {x : EStateM Exn (Sock W R C) α}
    (hx : Keeps Sock.tended x) (hthrows : Throws BufferExn x) :
    Tends A B P E x := by
  intro s hs
  cases hrun : x s with
  | ok a t => exact .ok (hs.congr (hx.of_ok hrun))
  | error e t =>
      exact .error (h.weaken _ _ (hthrows.of_error hrun).defined
        (hs.congr (hx.of_error hrun)).world)

/-- The other components of a socket. -/
theorem onRbuf {x : EStateM Exn (Buffer UInt8 C) α}
    (hthrows : Throws BufferExn x) :
    Tends A B P E (Sock.onRbuf x : EStateM Exn (Sock W R C) α) := by
  refine of_keeps h ?_ (throws_zoom hthrows)
  apply keeps_zoom
  exact fun _ _ => rfl

theorem onWbuf {x : EStateM Exn (Buffer UInt8 C) α}
    (hthrows : Throws BufferExn x) :
    Tends A B P E (Sock.onWbuf x : EStateM Exn (Sock W R C) α) := by
  refine of_keeps h ?_ (throws_zoom hthrows)
  apply keeps_zoom
  exact fun _ _ => rfl

/-- A call on the ring of operations that writes no slot. -/
theorem onRxCbs {x : EStateM Exn (Buffer (IORx W) R) α}
    (hx : Keeps Buffer.buf x) (hthrows : Throws BufferExn x) :
    Tends A B P E (Sock.onRxCbs x : EStateM Exn (Sock W R C) α) := by
  refine of_keeps h (fun s => ?_) (throws_zoom hthrows)
  rw [Sock.onRxCbs, after_zoom, Sock.tended, hx]
  rfl

theorem onTxCbs {x : EStateM Exn (Buffer (IOTx W) R) α}
    (hx : Keeps Buffer.buf x) (hthrows : Throws BufferExn x) :
    Tends A B P E (Sock.onTxCbs x : EStateM Exn (Sock W R C) α) := by
  refine of_keeps h (fun s => ?_) (throws_zoom hthrows)
  rw [Sock.onTxCbs, after_zoom, Sock.tended, hx]
  rfl

/-- A point is queued. -/
theorem queueTx {pt : IOTx W} (hpt : ∀ f, pt.cb = some f → B f pt.cbdata) :
    Tends A B P E (Sock.onTxCbs (Buffer.queueEmplace pt) :
      EStateM Exn (Sock W R C) Nat) := by
  intro s hs
  cases hslot : Buffer.queue 1 s.txCbs with
  | error e b =>
      have hthrow : Buffer.queueEmplace pt s.txCbs = .error e b :=
        bind_of_error hslot
      rw [Sock.onTxCbs, zoom_of_error hthrow]
      exact .error (h.weaken _ _
        ((Buffer.queue_throws_only 1).of_error hslot).defined hs.world)
  | ok r b =>
      have hstored : Buffer.queueEmplace pt s.txCbs =
          .ok r.1 { b with buf := blit b.buf r.1 [pt] } :=
        (bind_of_ok hslot).trans rfl
      rw [Sock.onTxCbs, zoom_of_ok hstored,
        (Buffer.keeps_buf_queue 1).of_ok hslot]
      exact .ok ⟨hs.world, hs.hdr, hs.body, fun j _ hf =>
        point_blit hs r.1 hpt j hf⟩

end Harmless

/-- **A call on the world**, such as a callback. -/
theorem onWorld {x : EStateM Exn W α} (hx : Triple P x (fun _ => P) E) :
    Tends A B P E (Sock.onWorld x : EStateM Exn (Sock W R C) α) :=
  tended_onWorld hx

end Tends

namespace Sock

variable (h : Harmless A B P E)
include h

/-! ## Receiving -/

theorem consume_tends {op : IORx W} {phase : Phase} {len : Nat}
    {cb : Option (RxCB W)} (hcb : ∀ f, cb = some f → A f) :
    Tends A B P E (consume op phase len cb : EStateM Exn (Sock W R C) _) := by
  refine .get fun s _ => .ite (.pure _) (.ite ?_ ?_)
  · cases cb with
    | none =>
        exact .bind (.onRbuf h (Buffer.drop_throws_only _)) fun _ => .pure _
    | some f => exact .pure _
  · cases cb with
    | none =>
        exact .bind (.onRbuf h (Buffer.drop_throws_only _)) fun _ => .pure _
    | some f =>
        have hcall := h.rx f (hcb f rfl)
        exact .bind (.onRbuf h (Buffer.peek_throws_only _)) fun _ =>
          .bind (.onWorld (hcall _ _ _)) fun _ => .bind (.emit _) fun _ =>
          .bind (.onRbuf h (Buffer.drop_throws_only _)) fun _ => .pure _

theorem rxOp_tends (p : Nat) :
    Tends A B P E (rxOp p : EStateM Exn (Sock W R C) _) := by
  refine .get fun s hs => .bind (consume_tends h (hs.hdr p)) fun r => ?_
  refine .bind (.setRx p (hs.hdr p) (hs.body p)) fun _ => .ite ?_ (.pure _)
  refine .bind (consume_tends h (hs.body p)) fun _ => ?_
  exact .bind (.setRx p (hs.hdr p) (hs.body p)) fun _ => .pure _

theorem rxLoop_tends (ps : List Nat) : ∀ drop,
    Tends A B P E (rxLoop ps drop : EStateM Exn (Sock W R C) _) := by
  induction ps with
  | nil => exact fun drop => .pure drop
  | cons p ps ih =>
      exact fun drop => .bind (rxOp_tends h p) fun _ => .ite (ih _) (.pure _)

theorem rxFill_tends (r : ReadRes) :
    Tends A B P E (rxFill r : EStateM Exn (Sock W R C) _) := by
  refine .get fun s _ => .bind (.onRbuf h (Buffer.queuePrep_throws_only _))
    fun _ => ?_
  cases r with
  | data b bs =>
      exact .ite (.throw h nofun) (.bind (.onRbuf h (throws_modify _))
        fun _ => .bind (.emit _) fun _ =>
        .bind (.onRbuf h (Buffer.queueCommit_throws_only _)) fun _ => .pure _)
  | eof errno => exact .throw h nofun
  | error errno =>
      exact .ite (.bind (.modify fun _ => rfl) fun _ => .pure _)
        (.throw h nofun)

theorem rxTurn_tends (r : ReadRes) :
    Tends A B P E (rxTurn r : EStateM Exn (Sock W R C) _) := by
  refine .get fun s _ => .ite (.pure _) (.bind (rxFill_tends h r) fun _ =>
    .ite (.bind ?_ fun _ => .pure _) (.pure _))
  exact .get fun s _ => .bind (rxLoop_tends h _ _) fun _ =>
    .onRxCbs h (Buffer.keeps_buf_drop _) (Buffer.drop_throws_only _)

/-- **`rx`** calls callbacks only. -/
theorem rx_tends (rin : List ReadRes) :
    Tends A B P E (rx rin : EStateM Exn (Sock W R C) Unit) := by
  induction rin with
  | nil => exact .bind (rxTurn_tends h _) fun _ => .pure _
  | cons r rs ih => exact .bind (rxTurn_tends h r) fun _ => .ite ih (.pure _)

/-- **`read`** queues an operation, and may call callbacks. -/
theorem read_tends {op : IORx W} (hhdr : ∀ f, op.hdrcb = some f → A f)
    (hbody : ∀ f, op.bodycb = some f → A f) (rin : List ReadRes) :
    Tends A B P E (read op rin : EStateM Exn (Sock W R C) Unit) :=
  .get fun _ _ => .bind (.onRxCbs h (Buffer.keeps_buf_queue 1)
      (Buffer.queue_throws_only 1)) fun _ =>
    .bind (.setRx _ hhdr hbody) fun _ => .bind (.modify fun _ => rfl) fun _ =>
    .ite (rx_tends h rin) (.pure _)

/-! ## Transmitting -/

theorem txLoop_tends (ps : List Nat) : ∀ nbytes drop, Tends A B P E
    (txLoop ps nbytes drop : EStateM Exn (Sock W R C) _) := by
  induction ps with
  | nil => exact fun _ drop => .pure drop
  | cons p ps ih =>
      intro nbytes drop
      refine .get fun s hs => .ite ?_ ?_
      · exact .bind (.setTx p (hs.point p)) fun _ => .bind (.emit _) fun _ =>
          .bind (.modify fun _ => rfl) fun _ => .bind (.emit _) fun _ =>
          .pure _
      · cases hpt : (s.txCbs.buf p).cb with
        | none => exact .throw h nofun
        | some f =>
            have hcall := h.tx f _ (hs.point p f hpt)
            exact .bind (.onWorld (hcall _)) fun _ => .bind (.emit _)
              fun _ => .bind (.modify fun _ => rfl) fun _ =>
              .bind (.emit _) fun _ => ih _ _

theorem txSend_tends (n : Nat) (bytes : List UInt8) (r : WriteRes) :
    Tends A B P E (txSend n bytes r : EStateM Exn (Sock W R C) _) := by
  cases r with
  | error errno =>
      exact .ite (.bind (.modify fun _ => rfl) fun _ => .pure _)
        (.throw h nofun)
  | accepted k =>
      refine .ite (.throw h nofun) (.bind (.emit _) fun _ =>
        .bind (.onWbuf h (Buffer.drop_throws_only _)) fun _ =>
        .bind ?_ fun _ => .pure _)
      exact .get fun s _ => .bind (txLoop_tends h _ _ _) fun _ =>
        .onTxCbs h (Buffer.keeps_buf_drop _) (Buffer.drop_throws_only _)

theorem txTurn_tends (r : WriteRes) :
    Tends A B P E (txTurn r : EStateM Exn (Sock W R C) _) :=
  .get fun _ _ => .ite (.pure _)
    (.bind (.onWbuf h (Buffer.peek_throws_only _)) fun _ =>
      txSend_tends h _ _ r)

/-- **`tx`** calls callbacks only. -/
theorem tx_tends (wout : List WriteRes) :
    Tends A B P E (tx wout : EStateM Exn (Sock W R C) Unit) := by
  induction wout with
  | nil => exact .bind (txTurn_tends h _) fun _ => .pure _
  | cons r rs ih => exact .bind (txTurn_tends h r) fun _ => .ite ih (.pure _)

theorem tryTx_tends (wout : List WriteRes) :
    Tends A B P E (tryTx wout : EStateM Exn (Sock W R C) Unit) :=
  .get fun _ _ => .ite (tx_tends h wout) (.pure _)

/-- What only touches `wbuf_`. -/
theorem writes_tends {x : EStateM Exn (Sock W R C) Unit} (hx : Writes x) :
    Tends A B P E x := by
  refine Tends.of_keeps h (fun s => ?_) hx.throws
  have hsame := hx.quiet s
  simp only [writeFrame, rxSide, Prod.mk.injEq] at hsame
  simp only [tended, hsame]

/-- **`write_cb_point`** queues a point. -/
theorem writeCbPoint_tends {cb : Option (TxCB W)} {data : Option Nat}
    (hcb : ∀ f, cb = some f → B f data) :
    Tends A B P E (writeCbPoint cb data :
      EStateM Exn (Sock W R C) Unit) := by
  refine .get fun s _ => .ite ?_ ?_
  · exact .bind (.queueTx h hcb) fun _ => .bind (.emit _) fun _ =>
      .modify fun _ => rfl
  · exact .bind (.queueTx h hcb) fun _ => .bind (.emit _) fun _ =>
      .bind (.emit _) fun _ => .modify fun _ => rfl

/-! ## Events -/

/-- **`run_io`** calls callbacks only. -/
theorem runIo_tends (events : UInt32) (check : ConnCheck)
    (rin : List ReadRes) (wout : List WriteRes) :
    Tends A B P E (runIo events check rin wout :
      EStateM Exn (Sock W R C) Unit) := by
  have hcheck : Tends A B P E (socketCheckConnected check :
      EStateM Exn (Sock W R C) Unit) := by
    cases check with
    | ok => exact .pure _
    | failed errno => exact .throw h nofun
    | soError valopt => exact .throw h nofun
  have hfinish : Tends A B P E (finishConnect check :
      EStateM Exn (Sock W R C) Unit) :=
    .get fun _ _ => .ite (.pure _) (.bind hcheck fun _ =>
      .modify fun _ => rfl)
  have hin : Tends A B P E (runIn rin : EStateM Exn (Sock W R C) Unit) :=
    .bind (.modify fun _ => rfl) fun _ => rx_tends h rin
  have hout : Tends A B P E (runOut check wout :
      EStateM Exn (Sock W R C) Unit) :=
    .bind hfinish fun _ => .bind (.modify fun _ => rfl) fun _ =>
      tx_tends h wout
  rw [runIo]
  by_cases hbit : events &&& EPOLLIN ≠ 0
  · rw [if_pos hbit]
    exact .bind hin fun _ => .ite hout (.pure _)
  · rw [if_neg hbit]
    exact .bind (.pure _) fun _ => .ite hout (.pure _)

end Sock

end Mutated.Ports
