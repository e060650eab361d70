import Mutated.Ports.SockReceive

/-!
# Receiving is parsing

The receive path works on whatever the kernel hands over, keeps unfinished
operations in place and resumes them later.  What the callbacks see is
nevertheless what a parser would show them that has the whole stream in front
of it: the header of the first operation, then its body, then the second
operation, and so on.

`parse` is that parser.  `residual` is what is left to parse for a socket:
its pending operations over its received bytes.  Each small step of the
receive path moves one callback from the residual into the past, or none, so
what was parsed followed by what is left is the same list all along.

## Main results

`run_parses` states this for every run of `read` and `run_io(EPOLLIN)`, and
with it that the cuts the kernel makes in the stream are invisible to the
callbacks.
-/

namespace Mutated.Ports

open Mutated.Verified.Circular
open Mutated.Verified.Exec
open Relation (ReflTransGen)

variable {W : Type} {R C : ℕ+}

/-! ## Runs -/

/-- The calls that receive: `read` of an operation and `run_io(EPOLLIN)`,
each with the kernel's answers to the reads it makes. -/
inductive RxCall (W : Type)
  | read (op : IORx W) (rin : List ReadRes)
  | runIo (rin : List ReadRes)

namespace RxCall

def call : RxCall W → EStateM Exn (Sock W R C) Unit
  | .read op rin => Sock.read op rin
  | .runIo rin => Sock.runIo EPOLLIN .ok rin []

/-- The operation a call queues, as the `n`-th one. -/
def issue (n : Nat) : RxCall W → List (IORx W)
  | .read op _ => [{ op with serial := n }]
  | .runIo _ => []

/-- A run of calls, up to the first one that throws. -/
def runAll : List (RxCall W) → EStateM Exn (Sock W R C) Unit
  | [] => pure ()
  | c :: cs => do
      c.call
      runAll cs

/-- The operations a run queues, the first one being the `n`-th. -/
def issued (n : Nat) : List (RxCall W) → List (IORx W)
  | [] => []
  | c :: cs => c.issue n ++ issued (n + (c.issue n).length) cs

end RxCall

/-- The bytes that arrived. -/
def received (trace : List Event) : List UInt8 :=
  trace.flatMap fun
    | .recvd bytes => bytes
    | _ => []

/-- The receive callbacks that were called, with what they were handed and
what they returned. -/
def delivered (trace : List Event) : List Event :=
  trace.filter fun
    | .rxcb .. => true
    | _ => false

@[simp] theorem received_append (t u : List Event) :
    received (t ++ u) = received t ++ received u := List.flatMap_append ..

@[simp] theorem delivered_append (t u : List Event) :
    delivered (t ++ u) = delivered t ++ delivered u := List.filter_append ..

/-! ## The parser -/

/-- One phase of `op` at position `pos` of a ring of `C` bytes over the
stream `xs`; `next` parses what follows.  Nothing follows when the stream is
too short or the callback throws. -/
def parsePhase (C addr : Nat) (op : IORx W) (phase : Phase) (len : Nat)
    (cb : Option (RxCB W)) (pos : Nat) (w : W) (xs : List UInt8)
    (next : Option Nat → Nat → W → List UInt8 → List Event) : List Event :=
  if len = 0 then next none pos w xs
  else if xs.length < len then []
  else match cb with
    | none => next none ((pos + len) % C) w (xs.drop len)
    | some f =>
        match f addr op.cbdata (segsAt C pos (xs.take len)) 0 w with
        | .error _ _ => []
        | .ok r w =>
            .rxcb op.serial phase (segsAt C pos (xs.take len)) 0 r ::
              next (some r) ((pos + len) % C) w (xs.drop len)

/-- The callbacks of the operations over the stream `xs`, one operation
after the other, and its header before its body. -/
def parse (C addr : Nat) : List (IORx W) → Nat → W → List UInt8 → List Event
  | [], _, _, _ => []
  | op :: ops, pos, w, xs =>
      parsePhase C addr op .hdr op.hdrlen op.hdrcb pos w xs
        fun ret pos w xs =>
          parsePhase C addr op .body (ret.getD op.bodylen) op.bodycb pos w xs
            fun _ pos w xs => parse C addr ops pos w xs

/-- What is left to parse, when the operations `ops` are queued and the bytes
`t` arrive later. -/
def Queues.residual (C addr : Nat) (q : Queues W) (ops : List (IORx W))
    (t : List UInt8) : List Event :=
  parse C addr (q.rxCbs ++ ops) q.rhead q.world (q.rbuf ++ t)

/-! ## Parsing phase by phase -/

theorem parsePhase_zero (C addr : Nat) (op : IORx W) (phase : Phase)
    (cb : Option (RxCB W)) (pos : Nat) (w : W) (xs : List UInt8)
    (next : Option Nat → Nat → W → List UInt8 → List Event) :
    parsePhase C addr op phase 0 cb pos w xs next = next none pos w xs :=
  if_pos rfl

/-- Skipping some of the bytes of a phase first changes nothing. -/
private theorem parsePhase_skip {C addr : Nat} {op op' : IORx W}
    {phase : Phase} {len n pos : Nat} {w : W} {xs : List UInt8}
    {next : Option Nat → Nat → W → List UInt8 → List Event}
    (hpos : pos < C) (hn : n ≤ len) (hxs : n ≤ xs.length) :
    parsePhase C addr op' phase (len - n) none ((pos + n) % C) w (xs.drop n)
      next = parsePhase C addr op phase len none pos w xs next := by
  rcases Nat.eq_zero_or_pos len with hzero | hlen
  · have hn0 : n = 0 := by omega
    subst hzero hn0
    rw [Nat.add_zero, Nat.mod_eq_of_lt hpos, List.drop_zero, Nat.sub_zero,
      parsePhase_zero, parsePhase_zero]
  rcases Nat.eq_or_lt_of_le hn with hall | hpart
  · subst hall
    rw [Nat.sub_self, parsePhase_zero, parsePhase, if_neg (by omega),
      if_neg (by omega)]
  · have hsum : ((pos + n) % C + (len - n)) % C = (pos + len) % C := by
      rw [Nat.mod_add_mod]
      congr 1
      omega
    have hdrop : (xs.drop n).drop (len - n) = xs.drop len := by
      rw [List.drop_drop]
      congr 1
      omega
    unfold parsePhase
    rw [if_neg (show ¬ len - n = 0 by omega), if_neg (show ¬ len = 0 by omega),
      List.length_drop, hdrop, hsum]
    by_cases hshort : xs.length < len
    · rw [if_pos hshort, if_pos (by omega)]
    · rw [if_neg hshort, if_neg (by omega)]

/-- Bytes nobody asked to see can be dropped a few at a time. -/
theorem parse_skip {C addr : Nat} {op : IORx W} {ops : List (IORx W)}
    {n pos : Nat} {w : W} {xs : List UInt8} (hcb : op.cb = none)
    (hpos : pos < C) (hneed : n ≤ op.need) (hxs : n ≤ xs.length) :
    parse C addr (op.skip n :: ops) ((pos + n) % C) w (xs.drop n) =
      parse C addr (op :: ops) pos w xs := by
  by_cases hhdr : 0 < op.hdrlen
  · simp only [IORx.cb, IORx.need, if_pos hhdr] at hcb hneed
    simp only [parse, IORx.skip, if_pos hhdr, hcb]
    exact parsePhase_skip hpos hneed hxs
  · have hzero : op.hdrlen = 0 := by omega
    simp only [IORx.cb, IORx.need, if_neg hhdr] at hcb hneed
    simp only [parse, IORx.skip, hcb, hzero, Nat.lt_irrefl, if_false,
      parsePhase_zero, Option.getD_none]
    exact parsePhase_skip hpos hneed hxs

/-- A callback whose bytes are there is the next one parsed. -/
theorem parse_fire {C addr : Nat} {op : IORx W} {ops : List (IORx W)}
    {pos : Nat} {w w' : W} {xs : List UInt8} {f : RxCB W} {r : Nat}
    (hcb : op.cb = some f) (hneed : 0 < op.need) (hxs : op.need ≤ xs.length)
    (hcall : f addr op.cbdata (segsAt C pos (xs.take op.need)) 0 w =
      .ok r w') :
    parse C addr (op :: ops) pos w xs =
      .rxcb op.serial op.phase (segsAt C pos (xs.take op.need)) 0 r ::
        parse C addr (op.fire r :: ops) ((pos + op.need) % C) w'
          (xs.drop op.need) := by
  by_cases hhdr : 0 < op.hdrlen
  · simp only [IORx.cb, IORx.need, if_pos hhdr] at hcb hneed hxs hcall
    simp only [parse, IORx.fire, IORx.phase, IORx.need, if_pos hhdr,
      parsePhase_zero, hcb]
    rw [parsePhase, if_neg (by omega), if_neg (by omega)]
    simp only [hcall, Option.getD_some, Option.getD_none]
    rfl
  · have hzero : op.hdrlen = 0 := by omega
    simp only [IORx.cb, IORx.need, if_neg hhdr] at hcb hneed hxs hcall
    simp only [parse, IORx.fire, IORx.phase, IORx.need, hzero,
      Nat.lt_irrefl, if_false, parsePhase_zero, hcb, Option.getD_none]
    rw [parsePhase, if_neg (by omega), if_neg (by omega)]
    simp only [hcall]

/-- An operation that needs nothing more is not seen. -/
theorem parse_finish {C addr : Nat} {op : IORx W} {ops : List (IORx W)}
    {pos : Nat} {w : W} {xs : List UInt8} (hneed : op.need = 0) :
    parse C addr (op :: ops) pos w xs = parse C addr ops pos w xs := by
  by_cases hhdr : 0 < op.hdrlen
  · simp only [IORx.need, if_pos hhdr] at hneed
    omega
  · have hzero : op.hdrlen = 0 := by omega
    simp only [IORx.need, if_neg hhdr] at hneed
    simp only [parse, hzero, hneed, parsePhase_zero, Option.getD_none]

/-! ## Steps and runs -/

/-- What the steps from `q` to `q'` did: the bytes that arrived and the
callbacks that were called take the residual of `q` to that of `q'`. -/
def Explains (C addr : Nat) (q q' : Queues W) : Prop :=
  ∃ new, q'.trace = q.trace ++ new ∧ ∀ ops t,
    q.residual C addr ops (received new ++ t) =
      delivered new ++ q'.residual C addr ops t

/-- **One small step** delivers the next callback of the residual, or
none. -/
theorem RxStep.explains {C addr : Nat} {q q' : Queues W}
    (hstep : Queues.RxStep C addr q q') (hhead : q.rhead < C) :
    q'.rhead < C ∧ Explains C addr q q' := by
  have hwrap : ∀ n, (q.rhead + n) % C < C := fun n =>
    Nat.mod_lt _ (by omega)
  cases hstep with
  | recvd b bs hfit =>
      refine ⟨hhead, [.recvd (b :: bs)], rfl, fun ops t => ?_⟩
      simp [Queues.residual, received, delivered, List.append_assoc]
  | skip op rest n hops hcb hlen hneed =>
      refine ⟨hwrap n, [], (List.append_nil _).symm, fun ops t => ?_⟩
      have hdrop : (q.rbuf ++ t).drop n = q.rbuf.drop n ++ t :=
        List.drop_append_of_le_length hlen
      simp only [Queues.residual, Queues.eat, hops, received, delivered,
        List.flatMap_nil, List.filter_nil, List.nil_append, List.cons_append]
      rw [← hdrop]
      refine (parse_skip hcb hhead hneed ?_).symm
      rw [List.length_append]
      omega
  | fire op rest cb r w hops hcb hpos hneed hcall =>
      refine ⟨hwrap op.need, _, rfl, fun ops t => ?_⟩
      have hdrop : (q.rbuf ++ t).drop op.need = q.rbuf.drop op.need ++ t :=
        List.drop_append_of_le_length hneed
      have htake : (q.rbuf ++ t).take op.need = q.rbuf.take op.need :=
        List.take_append_of_le_length hneed
      simp only [Queues.residual, Queues.eat, hops, received, delivered,
        List.flatMap_cons, List.flatMap_nil, List.nil_append,
        List.cons_append]
      rw [← hdrop, ← htake]
      rw [← htake] at hcall
      refine parse_fire hcb hpos ?_ hcall
      rw [List.length_append]
      omega
  | finish op rest hops hneed =>
      refine ⟨hhead, [], (List.append_nil _).symm, fun ops t => ?_⟩
      simp only [Queues.residual, hops, received, delivered,
        List.flatMap_nil, List.filter_nil, List.nil_append, List.cons_append]
      exact parse_finish hneed

theorem Explains.refl (C addr : Nat) (q : Queues W) : Explains C addr q q :=
  ⟨[], (List.append_nil _).symm, fun _ _ => rfl⟩

theorem Explains.trans {C addr : Nat} {q₁ q₂ q₃ : Queues W}
    (h₁ : Explains C addr q₁ q₂) (h₂ : Explains C addr q₂ q₃) :
    Explains C addr q₁ q₃ := by
  obtain ⟨new₁, htrace₁, hres₁⟩ := h₁
  obtain ⟨new₂, htrace₂, hres₂⟩ := h₂
  refine ⟨new₁ ++ new₂, ?_, fun ops t => ?_⟩
  · rw [htrace₂, htrace₁, List.append_assoc]
  · rw [received_append, delivered_append, List.append_assoc,
      List.append_assoc, hres₁, hres₂]

/-- A chain of small steps delivers the next callbacks of the residual. -/
theorem explains_of_chain {C addr : Nat} {q q' : Queues W}
    (hchain : ReflTransGen (Queues.RxStep C addr) q q')
    (hhead : q.rhead < C) : q'.rhead < C ∧ Explains C addr q q' := by
  induction hchain with
  | refl => exact ⟨hhead, .refl C addr q⟩
  | tail _ hlast ih =>
      obtain ⟨hhead', hmid⟩ := ih
      obtain ⟨hhead'', hend⟩ := RxStep.explains hlast hhead'
      exact ⟨hhead'', hmid.trans hend⟩

/-- The queues after the operations `ops` were queued. -/
def Queues.queued (q : Queues W) (ops : List (IORx W)) : Queues W :=
  { q with rxCbs := q.rxCbs ++ ops }

@[simp] theorem Queues.queued_nil (q : Queues W) : q.queued [] = q := by
  simp [queued]

theorem Queues.queued_append (q : Queues W) (ops ops' : List (IORx W)) :
    q.queued (ops ++ ops') = (q.queued ops).queued ops' := by
  simp [queued]

/-- Operations that are queued later do not disturb the ones before. -/
theorem Explains.queued {C addr : Nat} {q q' : Queues W}
    (h : Explains C addr q q') (ops : List (IORx W)) :
    Explains C addr (q.queued ops) (q'.queued ops) := by
  obtain ⟨new, htrace, hres⟩ := h
  refine ⟨new, htrace, fun ops' t => ?_⟩
  have hboth := hres (ops ++ ops') t
  simpa only [Queues.residual, Queues.queued, List.append_assoc] using hboth

/-- What a call does, when it does not throw. -/
structure RxCall.Ran (c : RxCall W) (s s' : Sock W R C) : Prop where
  wf : s'.WF
  txSide : s'.txSide = s.txSide
  nread : s'.nread = s.nread + (c.issue s.nread).length
  chain : ReflTransGen (Queues.RxStep C s.addr)
    (s.view.queued (c.issue s.nread)) s'.view

/-- **A call** queues its operation, and then receives. -/
theorem RxCall.call_ok {c : RxCall W} {s s' : Sock W R C} (h : s.WF)
    (hrun : c.call s = .ok () s') : c.Ran s s' := by
  cases c with
  | read op rin =>
      have hrun : Sock.read op rin s = .ok () s' := hrun
      rcases Nat.eq_zero_or_pos s.rxCbs.space with hfull | hroom
      · obtain ⟨e, hthrow, -⟩ := Sock.read_throws hfull op rin
        rw [hthrow] at hrun
        cases hrun
      have hwf := h.enqueued hroom op
      have hview := Sock.enqueued_view h hroom op
      rw [Sock.read_ok h hroom] at hrun
      cases hrdy : s.rxRdy with
      | false =>
          rw [hrdy] at hrun
          cases hrun
          refine ⟨hwf, rfl, rfl, ?_⟩
          rw [hview]
          exact .refl
      | true =>
          rw [hrdy] at hrun
          rcases Sock.rx_cases rin hwf with
            ⟨t, hrx, hwf', houter, hchain⟩ | ⟨e, t, hrx, -⟩
          · cases hrx.symm.trans hrun
            rw [hview] at hchain
            exact ⟨hwf', congrArg (·.1) houter, congrArg (·.2) houter, hchain⟩
          · cases hrx.symm.trans hrun
  | runIo rin =>
      have hrun := (Sock.runIo_in s .ok rin []).symm.trans hrun
      have hwf : ({ s with rxRdy := true } : Sock W R C).WF :=
        ⟨h.rxCbs, h.rbuf, h.txCbs, h.wbuf⟩
      rcases Sock.rx_cases rin hwf with
        ⟨t, hrx, hwf', houter, hchain⟩ | ⟨e, t, hrx, -⟩
      · cases hrx.symm.trans hrun
        refine ⟨hwf', congrArg (·.1) houter, congrArg (·.2) houter, ?_⟩
        rw [issue, Queues.queued_nil]
        exact hchain
      · cases hrx.symm.trans hrun

/-- A run keeps the rings well formed, and explains what was delivered. -/
theorem RxCall.runAll_ok (calls : List (RxCall W)) : ∀ {s s' : Sock W R C},
    s.WF → runAll calls s = .ok () s' → s'.WF ∧
      Explains C s.addr (s.view.queued (issued s.nread calls)) s'.view := by
  induction calls with
  | nil =>
      intro s s' h hrun
      cases hrun
      refine ⟨h, ?_⟩
      simpa [issued, Queues.queued] using Explains.refl C s.addr s.view
  | cons c cs ih =>
      intro s s' h hrun
      obtain ⟨⟨⟩, t, hcall, hrest⟩ := bind_eq_ok.mp hrun
      have hran := c.call_ok h hcall
      have haddr : t.addr = s.addr := congrArg (·.1) hran.txSide
      obtain ⟨hwf, hend⟩ := ih hran.wf hrest
      obtain ⟨-, hfirst⟩ := explains_of_chain hran.chain
        (show s.rbuf.head < C from h.rbuf.head_lt)
      refine ⟨hwf, ?_⟩
      rw [haddr, hran.nread] at hend
      rw [issued, Queues.queued_append]
      exact (hfirst.queued _).trans hend

/-! ## The main result -/

private theorem getElem?_mono {l l' : List Event} (h : l <+: l')
    {k : Nat} {e : Event} (he : l[k]? = some e) : l'[k]? = some e := by
  obtain ⟨t, rfl⟩ := h
  have hk := (List.getElem?_eq_some_iff.mp he).1
  rwa [List.getElem?_append_left hk]

/-- **Receiving is parsing.**  After any run of `read` and `run_io(EPOLLIN)`
in which no call threw:

* the callbacks so far, with what they were handed, followed by the parse of
  the pending operations over the bytes still buffered and any continuation,
  are the parse of all operations over the whole stream;
* so they are a prefix of what the parser shows for the bytes that arrived;
* a run of the same operations over the same stream, cut in any other way,
  hands the same bytes to its `k`-th callback. -/
theorem run_parses (addr : Nat) (rmem wmem : Nat → UInt8) (w : W)
    (calls : List (RxCall W)) (s : Sock W R C)
    (hrun : RxCall.runAll calls (Sock.init addr rmem wmem w) = .ok () s) :
    (∀ ops t,
      parse C addr (RxCall.issued 0 calls ++ ops) 0 w
          (received s.trace ++ t) =
        delivered s.trace ++ parse C addr (s.rxCbs.toList ++ ops) s.rbuf.head
          s.world (s.rbuf.toList ++ t)) ∧
    delivered s.trace <+:
      parse C addr (RxCall.issued 0 calls) 0 w (received s.trace) ∧
    ∀ (rmem' wmem' : Nat → UInt8) (calls' : List (RxCall W))
      (s' : Sock W R C) (ops ops' : List (IORx W)) (t t' : List UInt8),
      RxCall.runAll calls' (Sock.init addr rmem' wmem' w) = .ok () s' →
      RxCall.issued 0 calls ++ ops = RxCall.issued 0 calls' ++ ops' →
      received s.trace ++ t = received s'.trace ++ t' →
      ∀ (k : Nat) (e e' : Event), (delivered s.trace)[k]? = some e →
        (delivered s'.trace)[k]? = some e' → e = e' := by
  have hmain : ∀ (rmem wmem : Nat → UInt8) (calls : List (RxCall W))
      (s : Sock W R C),
      RxCall.runAll calls (Sock.init addr rmem wmem w) = .ok () s →
      ∀ ops t, parse C addr (RxCall.issued 0 calls ++ ops) 0 w
          (received s.trace ++ t) =
        delivered s.trace ++ parse C addr (s.rxCbs.toList ++ ops) s.rbuf.head
          s.world (s.rbuf.toList ++ t) := by
    intro rmem wmem calls s hrun ops t
    obtain ⟨-, new, htrace, hres⟩ :=
      RxCall.runAll_ok calls (Sock.init_wf addr rmem wmem w) hrun
    have hnew : s.trace = new := htrace.trans (List.nil_append _)
    rw [hnew]
    exact hres ops t
  have hprefix : ∀ (rmem wmem : Nat → UInt8) (calls : List (RxCall W))
      (s : Sock W R C),
      RxCall.runAll calls (Sock.init addr rmem wmem w) = .ok () s →
      ∀ ops t, delivered s.trace <+:
        parse C addr (RxCall.issued 0 calls ++ ops) 0 w
          (received s.trace ++ t) := fun rmem wmem calls s hrun ops t =>
    ⟨_, (hmain rmem wmem calls s hrun ops t).symm⟩
  refine ⟨hmain rmem wmem calls s hrun, ?_, ?_⟩
  · simpa using hprefix rmem wmem calls s hrun [] []
  · intro rmem' wmem' calls' s' ops ops' t t' hrun' hops ht k e e' he he'
    have h₁ := hprefix rmem wmem calls s hrun ops t
    have h₂ := hprefix rmem' wmem' calls' s' hrun' ops' t'
    rw [← hops, ← ht] at h₂
    exact Option.some.inj ((getElem?_mono h₁ he).symm.trans
      (getElem?_mono h₂ he'))

/-- A header of two bytes, whose callback asks for one more, arriving in two
pieces on a ring of four. -/
private def twoPieces : List (RxCall Unit) :=
  [.read ⟨2, some fun _ _ _ _ => pure 1, 0, some fun _ _ _ _ => pure 0,
      none, 0⟩ [],
    .runIo [.data 7 [], .error EAGAIN],
    .runIo [.data 8 [9]]]

private def twoPiecesRun : EStateM.Result Exn (Sock Unit 4 4) Unit :=
  RxCall.runAll twoPieces (Sock.init 0 (fun _ => 0) (fun _ => 0) ())

theorem run_parses_twoPieces :
    delivered (after twoPiecesRun).trace =
        [.rxcb 0 .hdr ([7, 8], none) 0 1, .rxcb 0 .body ([9], none) 0 0] ∧
      delivered (after twoPiecesRun).trace <+:
        parse 4 0 (RxCall.issued 0 twoPieces) 0 ()
          (received (after twoPiecesRun).trace) :=
  ⟨by decide +kernel, (run_parses 0 (fun _ => 0) (fun _ => 0) () twoPieces
    (after twoPiecesRun) (eq_ok_of_returned (by decide +kernel))).2.1⟩

end Mutated.Ports
