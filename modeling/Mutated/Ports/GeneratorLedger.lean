import Mutated.Ports.GeneratorClient
import Mutated.Ports.SockWorlds
import Mutated.Ports.SyntheticRuns
import Mutated.Ports.Memcache

/-!
# The ledger of a generator

A generator tells the client about its requests in the order they were made,
each at most once, and each with the measure flag it was made with.  This holds
up to the very moment a call throws, and rests on `requests_` alone: not on
what the kernel answers, nor on how the socket frames the responses.

`Ledger` is the invariant between callbacks, `Recounted` what is left of it
after an exception, and `Left` that with the exception: one of the source, or
what the protocol makes of a response.

## Main results

`Synthetic.sendRequest_tells`, `Memcache.sendRequest_tells` and `runIo_tells`:
what a call changes of the client's data are its samples.
-/

namespace Mutated.Ports

open Mutated.Verified.Circular
open Mutated.Verified.Exec
open Mutated.Verified.History

/-- What the callback makes of the client's data for one sample after
another. -/
def tellAll {V : Type} (cb : RequestCB V) (ds : List Sample) (v : V) : V :=
  ds.foldl (fun v d => d.tell cb v) v

theorem tellAll_append {V : Type} (cb : RequestCB V) (ds ds' : List Sample)
    (v : V) : tellAll cb (ds ++ ds') v = tellAll cb ds' (tellAll cb ds v) :=
  List.foldl_append

/-- The callback `f` does to a part of the data what `cb` does. -/
def Through {K V : Type} (part : K → V) (cb : RequestCB V)
    (f : RequestCB K) : Prop :=
  ∀ queueUs serviceUs waitUs bytes measure k,
    part (f queueUs serviceUs waitUs bytes measure k) =
      cb queueUs serviceUs waitUs bytes measure (part k)

/-! ## The invariant -/

section Model

variable {X K V : Type} {R : ℕ+} (part : K → V) (cb : RequestCB V)
  (past : List Sample) (v : V) (flags : List Bool)

/-- Since the samples were `past` and the client's data `v`, the data changed
by what was told; `flags` are those of the requests.  The `k`-th sample is the
one of the `k`-th request. -/
structure Recounted (g : World X K R) : Prop where
  told : ∃ new, g.done = past ++ new ∧ part g.client = tellAll cb new v
  samples : ∀ (k : Nat) (d : Sample), g.done[k]? = some d →
    flags[k]? = some d.measure ∧ d.serial = k

/-- **The invariant**: the requests that wait are those that were not told
yet. -/
structure Ledger (g : World X K R) : Prop extends
    Recounted part cb past v flags g where
  wf : g.requests.WF
  used : g.requests.used + g.done.length = flags.length
  sent : g.sent.length = flags.length
  head : g.requests.head = g.done.length % R
  waits : ∀ (k : Nat) (m : Bool), g.done.length ≤ k → flags[k]? = some m →
    (g.requests.buf (k % R)).measure = m ∧
      (g.requests.buf (k % R)).serial = k ∧
      ∃ f, (g.requests.buf (k % R)).cb = some f ∧ Through part cb f

/-- What a connection throws: an exception, or what stands for the undefined
behaviour of its protocol. -/
def Proto.Fails (P : Proto X) (e : Exn) : Prop :=
  e.Defined ∨ ∃ info serviceUs segs,
    P.respond info serviceUs segs = .error e

/-- What is known after the exception `e`. -/
structure Left (F : Exn → Prop) (e : Exn) (g : World X K R) : Prop extends
    Recounted part cb past v flags g where
  fails : F e

end Model

section Steps

variable {X K V : Type} {R C : ℕ+} {part : K → V} {cb : RequestCB V}
  {past : List Sample} {v : V} {flags : List Bool} {g : World X K R}
  {clk : Nat → Nat} {P : Proto X}

/-- More requests may follow. -/
theorem Recounted.more (h : Recounted part cb past v flags g) (m : List Bool) :
    Recounted part cb past v (flags ++ m) g := by
  refine ⟨h.told, fun k d hd => ?_⟩
  obtain ⟨hflag, hserial⟩ := h.samples k d hd
  refine ⟨?_, hserial⟩
  rwa [List.getElem?_append_left (List.getElem?_eq_some_iff.mp hflag).1]

/-- More requests may follow, and more exceptions. -/
theorem Left.more {F F' : Exn → Prop} {e : Exn}
    (h : Left part cb past v flags F e g) (hF : F e → F' e) (m : List Bool) :
    Left part cb past v (flags ++ m) F' e g :=
  ⟨h.toRecounted.more m, hF h.fails⟩

theorem Left.mono {F F' : Exn → Prop} {e : Exn}
    (h : Left part cb past v flags F e g) (hF : F e → F' e) :
    Left part cb past v flags F' e g := ⟨h.toRecounted, hF h.fails⟩

/-- The requests and what was told are all the invariant speaks of. -/
theorem Ledger.congr {g' : World X K R} (h : Ledger part cb past v flags g)
    (hrequests : g'.requests = g.requests) (hdone : g'.done = g.done)
    (hsent : g'.sent = g.sent) (hpart : part g'.client = part g.client) :
    Ledger part cb past v flags g' := by
  refine ⟨⟨?_, ?_⟩, ?_, ?_, ?_, ?_, ?_⟩
  · rw [hdone, hpart]; exact h.told
  · rw [hdone]; exact h.samples
  · rw [hrequests]; exact h.wf
  · rw [hrequests, hdone]; exact h.used
  · rw [hsent]; exact h.sent
  · rw [hrequests, hdone]; exact h.head
  · rw [hrequests, hdone]; exact h.waits

/-- The samples so far may be counted as past. -/
theorem Ledger.renew (h : Ledger part cb past v flags g) :
    Ledger part cb g.done (part g.client) flags g :=
  ⟨⟨⟨[], (List.append_nil _).symm, rfl⟩, h.samples⟩, h.wf, h.used, h.sent,
    h.head, h.waits⟩

/-- A time stamp is written to a slot. -/
theorem Ledger.stamped (h : Ledger part cb past v flags g) (p : Nat)
    {req : Request X K} (hmeasure : req.measure = (g.requests.buf p).measure)
    (hserial : req.serial = (g.requests.buf p).serial)
    (hcb : req.cb = (g.requests.buf p).cb) :
    Ledger part cb past v flags (g.stamped p req) := by
  refine ⟨⟨h.told, h.samples⟩, ⟨h.wf.head_lt, h.wf.used_le, h.wf.tail_eq⟩,
    h.used, h.sent, h.head, fun k m hk hm => ?_⟩
  have hwaits := h.waits k m hk hm
  simp only [World.stamped, blit_singleton]
  split
  · next hp => rwa [hmeasure, hserial, hcb, ← hp]
  · exact hwaits

/-- `requests_` holds the requests that were not told yet, in their order. -/
theorem Ledger.entries (h : Ledger part cb past v flags g) :
    g.requests.toList.map (·.measure) = flags.drop g.done.length := by
  have hused := h.used
  apply List.ext_getElem?
  intro k
  rw [List.getElem?_map, List.getElem?_drop]
  rcases Nat.lt_or_ge k g.requests.used with hlt | hge
  · obtain ⟨m, hm⟩ : ∃ m, flags[g.done.length + k]? = some m :=
      ⟨_, List.getElem?_eq_getElem (by omega)⟩
    have hmeasure := (h.waits _ m (Nat.le_add_right _ _) hm).1
    rw [Buffer.getElem?_toList _ hlt, hm, h.head, Nat.mod_add_mod,
      Option.map_some, hmeasure]
  · rw [List.getElem?_eq_none (by rwa [Buffer.length_toList]),
      List.getElem?_eq_none (by omega), Option.map_none]

/-! ## The callbacks -/

/-- A point of a request knows its slot. -/
theorem sentRequest_triple (addr p : Nat) :
    Triple (fun g : World X K R => Ledger part cb past v flags g)
      (sentRequest clk P addr (some p) 0)
      (fun _ => Ledger part cb past v flags)
      (Left part cb past v flags P.Fails) := by
  refine .get fun g h => .ite (fun _ => .throw ?_) fun _ =>
    .ite (fun hbad => absurd rfl hbad) fun _ => ?_
  · rintro _ rfl
    exact ⟨h.toRecounted, .inl nofun⟩
  · rintro _ rfl
    exact .ok (h.stamped p rfl rfl rfl)

/-- `report` throws and changes nothing, or tells the client. -/
theorem report_cases (p : Nat) (req : Request X K) (segs : Segs) (t : Nat)
    (g : World X K R) :
    (∃ e, report P p req segs t g = .error e g ∧ P.Fails e) ∨
    ∃ waitUs f r, req.cb = some f ∧ report P p req segs t g =
      .ok r (g.reported P p req f ((req.sentTs - req.startTs) / 1000)
        ((t - req.startTs) / 1000) waitUs r) := by
  unfold report
  split
  · exact .inl ⟨_, rfl, .inl nofun⟩
  · split
    · exact .inl ⟨_, rfl, .inl nofun⟩
    · unfold score
      cases hrespond : P.respond req.info ((t - req.startTs) / 1000) segs with
      | error e => exact .inl ⟨e, rfl, .inr ⟨_, _, _, hrespond⟩⟩
      | ok wb =>
          cases hcb : req.cb with
          | none => exact .inl ⟨_, rfl, .inl nofun⟩
          | some f => exact .inr ⟨_, f, _, rfl, rfl⟩

/-- The oldest request is taken out and told. -/
private theorem Ledger.answer (h : Ledger part cb past v flags g)
    (hsome : 0 < g.requests.used) {f : RequestCB K}
    (hf : (g.requests.buf g.requests.head).cb = some f)
    (queueUs serviceUs waitUs r : Nat) :
    Ledger part cb past v flags (g.taken.reported P g.requests.head
      (g.requests.buf g.requests.head) f queueUs serviceUs waitUs r) := by
  have hused := h.used
  have hlt : g.done.length < flags.length := by omega
  have hflag := List.getElem?_eq_getElem hlt
  obtain ⟨hmeasure, hserial, f', hf', hthrough⟩ :=
    h.waits _ _ (Nat.le_refl _) hflag
  rw [← h.head] at hmeasure hserial hf'
  cases hf.symm.trans hf'
  obtain ⟨new, hdone, hclient⟩ := h.told
  refine ⟨⟨⟨new ++ [⟨g.requests.head,
      (g.requests.buf g.requests.head).serial, queueUs, serviceUs, waitUs,
      P.size + r, (g.requests.buf g.requests.head).measure⟩], ?_, ?_⟩, ?_⟩,
    h.wf.dropped hsome, ?_, h.sent, ?_, ?_⟩
  · show g.done ++ _ = _
    rw [hdone, List.append_assoc]
  · rw [tellAll_append, ← hclient]
    exact hthrough _ _ _ _ _ _
  · intro k d hd
    rcases getElem?_snoc hd with hold | ⟨rfl, rfl⟩
    · exact h.samples k d hold
    · exact ⟨hflag.trans (congrArg some hmeasure.symm), hserial⟩
  · show g.requests.used - 1 + (g.done ++ _).length = _
    rw [List.length_append, List.length_singleton]
    omega
  · show (g.requests.head + 1) % R = (g.done ++ _).length % R
    rw [List.length_append, List.length_singleton, h.head, Nat.mod_add_mod]
  · intro k m hk hm
    refine h.waits k m (Nat.le_trans ?_ hk) hm
    show g.done.length ≤ (g.done ++ _).length
    rw [List.length_append]
    exact Nat.le_add_right _ _

/-- **A response** tells about the oldest request, or throws. -/
theorem recvResponse_triple (addr : Nat) (data : Option Nat) (segs : Segs) :
    Triple (fun g : World X K R => Ledger part cb past v flags g)
      (recvResponse clk P addr data segs 0)
      (fun _ => Ledger part cb past v flags)
      (Left part cb past v flags P.Fails) := by
  refine .get fun g h => .ite (fun _ => .throw ?_) fun _ =>
    .ite (fun hbad => absurd rfl hbad) fun _ =>
    .ite (fun _ => .throw ?_) fun _ => ?_
  · rintro _ rfl
    exact ⟨h.toRecounted, .inl nofun⟩
  · rintro _ rfl
    exact ⟨h.toRecounted, .inl nofun⟩
  · rintro g rfl
    rcases Nat.eq_zero_or_pos g.requests.used with hempty | hsome
    · obtain ⟨e, hthrow⟩ := Buffer.dequeueOne_throws hempty
      have hnone : World.onRequests Buffer.dequeueOne g = .error e g :=
        zoom_of_error hthrow
      have hexn := Buffer.dequeueOne_throws_only.of_error hthrow
      rw [bind_of_error hnone]
      exact .error ⟨h.toRecounted, .inl hexn.defined⟩
    · have htake : World.onRequests Buffer.dequeueOne g = .ok g.requests.head
          { g with requests := g.requests.dropped 1 } :=
        zoom_of_ok (Buffer.dequeueOne_ok h.wf hsome)
      rw [bind_of_ok htake]
      by_cases hmatch : data ≠ some g.requests.head
      · rw [if_pos hmatch]
        exact .error ⟨⟨h.told, h.samples⟩, .inl nofun⟩
      · rw [if_neg hmatch]
        show Ends _ _ (report P g.requests.head
          (g.requests.buf g.requests.head) segs (clk g.ticks) g.taken)
        rcases report_cases (P := P) g.requests.head
          (g.requests.buf g.requests.head) segs (clk g.ticks) g.taken with
          ⟨e, hthrow, hfails⟩ | ⟨waitUs, f, r, hf, hreport⟩
        · rw [hthrow]
          exact .error ⟨⟨h.told, h.samples⟩, hfails⟩
        · rw [hreport]
          exact .ok (h.answer hsome hf _ _ _ _)

/-- **A request is entered.** -/
theorem enqueue_triple (info : X) (measure : Bool) {f : RequestCB K}
    (hf : Through part cb f) :
    Triple (fun g : World X K R => Ledger part cb past v flags g)
      (World.enqueue info measure f)
      (fun _ => Ledger part cb past v (flags ++ [measure]))
      (Left part cb past v (flags ++ [measure]) P.Fails) := by
  intro g h
  rcases Nat.eq_zero_or_pos g.requests.space with hfull | hroom
  · obtain ⟨e, hthrow, hexn⟩ := World.enqueue_throws hfull info measure f
    rw [hthrow]
    exact .error ⟨h.toRecounted.more _, .inl hexn.defined⟩
  · have hused := h.used
    have hspace : g.requests.space = R - g.requests.used := rfl
    have hslot : g.requests.tail = flags.length % R := by
      rw [h.wf.tail_eq, h.head, Nat.mod_add_mod, Nat.add_comm, hused]
    rw [World.enqueue_ok h.wf hroom info measure f]
    have hmore := h.toRecounted.more [measure]
    refine .ok ⟨⟨hmore.told, hmore.samples⟩,
      (h.wf.stored _).committed hroom, ?_, ?_, h.head, fun k m hk hm => ?_⟩
    · show g.requests.used + 1 + g.done.length = _
      rw [List.length_append, List.length_singleton]
      omega
    · show (g.sent ++ [_]).length = _
      rw [List.length_append, List.length_append, h.sent]
      rfl
    · have htail := h.wf.tail_lt
      have hbuf : (g.enqueued info measure f).requests.buf (k % R) =
          if k % R = g.requests.tail then
            ⟨info, measure, some f, 0, 0, g.sent.length⟩
          else g.requests.buf (k % R) := by
        simp only [World.enqueued, Buffer.committed_buf, Buffer.stored]
        rw [scatter_of_le (by rw [List.length_singleton]; omega),
          blit_singleton]
      rw [hbuf]
      rcases getElem?_snoc hm with hold | ⟨rfl, rfl⟩
      · have hlt := (List.getElem?_eq_some_iff.mp hold).1
        rw [if_neg ?_]
        · exact h.waits k m hk hold
        · rw [hslot]
          change g.done.length ≤ k at hk
          exact mod_ne (by omega) (by omega)
      · rw [if_pos hslot.symm]
        exact ⟨rfl, h.sent, f, rfl, hf⟩

/-! ## The calls -/

/-- A point of a request. -/
def Points (clk : Nat → Nat) (P : Proto X) (f : TxCB (World X K R))
    (data : Option Nat) : Prop :=
  f = sentRequest clk P ∧ data.isSome

/-- A connection with a ledger: its rings hold the callbacks of the generator
only. -/
def Booked (clk : Nat → Nat) (P : Proto X) (part : K → V) (cb : RequestCB V)
    (past : List Sample) (v : V) (flags : List Bool) (s : Conn X K R C) :
    Prop :=
  Tended (· = recvResponse clk P) (Points clk P) (Ledger part cb past v flags)
    s

theorem harmless (clk : Nat → Nat) (P : Proto X) (part : K → V)
    (cb : RequestCB V) (past : List Sample) (v : V) (flags : List Bool) :
    Harmless (W := World X K R) (· = recvResponse clk P) (Points clk P)
      (Ledger part cb past v flags) (Left part cb past v flags P.Fails) where
  weaken := fun _ _ hexn h => ⟨h.toRecounted, .inl hexn⟩
  rx := by
    rintro _ rfl addr data segs
    exact recvResponse_triple addr data segs
  tx := by
    rintro _ (_ | p) ⟨rfl, hsome⟩ addr
    · cases hsome
    · exact sentRequest_triple addr p

/-- A new connection. -/
theorem Booked.init (clk : Nat → Nat) (P : Proto X) (part : K → V)
    (cb : RequestCB V) (addr : Nat) (rmem wmem : Nat → UInt8) (info : X)
    (client : K) : Booked clk P part cb [] (part client) []
      (connect addr rmem wmem info client : Conn X K R C) :=
  Tended.init
    ⟨⟨⟨[], rfl, rfl⟩, nofun⟩, Buffer.init_wf _, rfl, rfl, rfl, nofun⟩

/-- Between two calls the client's data may be exchanged. -/
theorem Booked.renew {s : Conn X K R C}
    (h : Booked clk P part cb past v flags s) (k : K) :
    Booked clk P part cb s.world.done (part k) flags
      { s with world := { s.world with client := k } } := by
  have hworld := h.world
  exact ⟨⟨⟨⟨[], (List.append_nil _).symm, rfl⟩, hworld.samples⟩, hworld.wf,
    hworld.used, hworld.sent, hworld.head, hworld.waits⟩, h.hdr, h.body,
    h.point⟩

/-- **`run_io`** tells samples. -/
theorem runIo_tells (events : UInt32) (check : ConnCheck)
    (rin : List ReadRes) (wout : List WriteRes) :
    Triple (Booked (R := R) (C := C) clk P part cb past v flags)
      (Sock.runIo events check rin wout)
      (fun _ => Booked clk P part cb past v flags)
      fun e s => Left part cb past v flags P.Fails e s.world :=
  Sock.runIo_tends (harmless clk P part cb past v flags) events check rin wout

/-- So does the second half of `_send_request`. -/
theorem submit_tells (p : Nat) (wout : List WriteRes) (rin : List ReadRes) :
    Triple (Booked (R := R) (C := C) clk P part cb past v flags)
      (submit clk P p wout rin)
      (fun _ => Booked clk P part cb past v flags)
      fun e s => Left part cb past v flags P.Fails e s.world := by
  have h : Harmless (W := World X K R) _ _ _ _ :=
    harmless clk P part cb past v flags
  have hstamp : Triple
      (fun g : World X K R => Ledger part cb past v flags g)
      (World.stampStart clk p) (fun _ => Ledger part cb past v flags)
      (Left part cb past v flags P.Fails) := by
    intro g hg
    rw [World.stampStart_ok]
    exact .ok (hg.stamped p rfl rfl rfl)
  refine .bind (tended_onWorld hstamp) fun _ =>
    .bind (Sock.writeCbPoint_tends h ?_) fun _ =>
    .bind (Sock.tryTx_tends h wout) fun _ => Sock.read_tends h ?_ ?_ rin
  · rintro f ⟨⟩
    exact ⟨rfl, rfl⟩
  · rintro f ⟨⟩
    rfl
  · nofun

end Steps

section Protocols

variable {V : Type} {R C : ℕ+} {cb : RequestCB V} {past : List Sample}
  {v : V} {flags : List Bool} {clk : Nat → Nat}

/-- The synthetic protocol makes no exception of a response. -/
theorem Synthetic.proto_fails {e : Exn} (h : proto.Fails e) : e.Defined := by
  rcases h with hexn | ⟨info, serviceUs, segs, hrespond⟩
  · exact hexn
  · cases hrespond

/-- **`_send_request`** of a generator that awaits a reply. -/
theorem Synthetic.sendRequest_tells {cfg : Config}
    (hreply : cfg.sendOnly = false) (service : UInt64) (measure : Bool)
    (stack : Nat → UInt8) (wout : List WriteRes) (rin : List ReadRes) :
    Triple (Booked (R := R) (C := C) clk proto State.client cb past v flags)
      (sendRequest cfg clk service measure cb stack wout rin)
      (fun _ => Booked clk proto State.client cb past v (flags ++ [measure]))
      fun e s => Left State.client cb past v (flags ++ [measure]) Exn.Defined e
        s.world := by
  have h : Harmless (W := World UInt64 (State V) R) _ _ _ _ :=
    harmless clk proto State.client cb past v (flags ++ [measure])
  refine Triple.mono (E := fun e s => Left State.client cb past v
    (flags ++ [measure]) proto.Fails e s.world) ?_ (fun _ hs => hs)
    (fun _ _ hs => hs) fun _ _ hs => hs.mono proto_fails
  refine .bind (tended_onWorld (enqueue_triple service measure
    (f := onClient cb) fun _ _ _ _ _ _ => rfl)) fun p =>
    .bind (Sock.writes_tends h (writePacket_writes _ _)) fun _ =>
    .bind (submit_tells p wout rin) fun _ => ?_
  rw [hreply]
  exact Triple.pure fun _ hs => hs

/-- What stands for the undefined behaviour of this protocol: the header of a
response is cut by the end of the ring, or there are no records. -/
def Memcache.Fails (cfg : Config) (e : Exn) : Prop :=
  e.Defined ∨ e = copyPastHeader ∨ cfg.records = 0 ∧ e = divideByZero

theorem Memcache.proto_fails {cfg : Config} {e : Exn} (h : proto.Fails e) :
    Fails cfg e := by
  rcases h with hexn | ⟨op, serviceUs, segs, hrespond⟩
  · exact .inl hexn
  · refine .inr (.inl ?_)
    have hbody : (bodylen op segs).map (fun n => (0, n)) = .error e := hrespond
    rw [bodylen] at hbody
    split at hbody
    · cases hbody
    · cases hsegs : segs.2 with
      | none =>
          rw [hsegs] at hbody
          cases hbody
      | some _ =>
          rw [hsegs] at hbody
          cases hbody
          rfl

theorem Memcache.sendRequest_tells (cfg : Config) (low measure : Bool)
    (stack : Nat → Nat → UInt8) (wout : List WriteRes)
    (rin : List ReadRes) :
    Triple (Booked (R := R) (C := C) clk proto State.client cb past v flags)
      (sendRequest cfg clk low measure cb stack wout rin)
      (fun _ => Booked clk proto State.client cb past v (flags ++ [measure]))
      fun e s => Left State.client cb past v (flags ++ [measure]) (Fails cfg) e
        s.world := by
  have h : Harmless (W := World MemcCmd (State V) R) _ _ _ _ :=
    harmless clk proto State.client cb past v flags
  have hid : Triple
      (fun g : World MemcCmd (State V) R =>
        Ledger State.client cb past v flags g)
      nextId (fun _ => Ledger State.client cb past v flags)
      (Left State.client cb past v flags proto.Fails) :=
    fun g hg => .ok (hg.congr rfl rfl rfl rfl)
  have hkey : ∀ id : UInt64, Triple
      (Booked (R := R) (C := C) clk proto State.client cb past v flags)
      (chooseKey cfg id)
      (fun _ => Booked clk proto State.client cb past v flags)
      fun e s => Left State.client cb past v (flags ++ [measure]) (Fails cfg) e
        s.world :=
    fun id => .ite (fun hnone => .throw fun s hs =>
        ⟨hs.world.toRecounted.more _, .inr (.inr ⟨hnone, rfl⟩)⟩)
      fun _ => .pure fun _ hs => hs
  have hmore : ∀ (e : Exn) (s : Conn MemcCmd (State V) R C),
      Left State.client cb past v flags proto.Fails e s.world →
      Left State.client cb past v (flags ++ [measure]) (Fails cfg) e s.world :=
    fun _ _ hs => hs.more proto_fails _
  refine .bind ((tended_onWorld hid).mono (fun _ hs => hs)
    (fun _ _ hs => hs) hmore) fun id => ?_
  refine .bind (hkey id) fun key => ?_
  refine .bind ((Sock.writes_tends h (writeRequest_writes _ _ _)).mono
    (fun _ hs => hs) (fun _ _ hs => hs) hmore) fun _ => ?_
  refine Triple.mono (E := fun e s => Left State.client cb past v
    (flags ++ [measure]) proto.Fails e s.world) ?_ (fun _ hs => hs)
    (fun _ _ hs => hs) fun _ _ hs => hs.mono proto_fails
  refine .bind (tended_onWorld (enqueue_triple (chooseCmd low) measure
    (f := onClient cb) fun _ _ _ _ _ _ => rfl)) fun p => ?_
  exact .bind (submit_tells p wout rin) fun _ => .pure fun _ hs => hs

end Protocols

end Mutated.Ports
