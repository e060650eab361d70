import Mutated.Verified.Endian
import Mutated.Ports.SockWrites
import Mutated.Ports.GeneratorLockstep

/-!
# The memcache generator

`Memcache` speaks the binary protocol.  Its requests are a header, for a set
eight bytes of extras, the key, and for a set the value; a response is a
header whose `bodylen` counts the bytes that follow.

* `rand_` is an argument: each request is told which of its two draws comes
  out.
* The keys are the ones the constructor stores in `_keys`; the value is
  whatever the ring holds, as in the source.
* The machine is little endian.
* `stack i` is the memory behind the `i`-th object a request builds on the
  stack.
-/

namespace Mutated.Ports

open Mutated.Verified.Circular
open Mutated.Verified.Endian
open Mutated.Verified.Exec

/-! ## The binary protocol -/

/-- `MemcType`. -/
inductive MemcType
  | request
  | response
  deriving DecidableEq, Repr

def MemcType.code : MemcType → UInt8
  | .request => 0x80
  | .response => 0x81

/-- `MemcCmd`, as far as requests are made. -/
inductive MemcCmd
  | get
  | set
  | setq
  deriving DecidableEq, Repr

def MemcCmd.code : MemcCmd → UInt8
  | .get => 0x00
  | .set => 0x01
  | .setq => 0x11

def htons (x : UInt16) : UInt16 := .ofNat (ofBE (toLE 2 x.toNat))

def htonl (x : UInt32) : UInt32 := .ofNat (ofBE (toLE 4 x.toNat))

def htonll (x : UInt64) : UInt64 := .ofNat (ofBE (toLE 8 x.toNat))

/-- `MemcHeader`. -/
structure MemcHeader where
  type : MemcType
  cmd : MemcCmd
  keylen : UInt16
  extralen : UInt8
  datatype : UInt8
  status : UInt16
  bodylen : UInt32
  opaqueField : UInt32
  version : UInt64
  deriving DecidableEq, Repr

namespace MemcHeader

/-- `MemcHeader::SIZE`. -/
def size : Nat := 24

def hton (h : MemcHeader) : MemcHeader :=
  { h with
    keylen := htons h.keylen
    status := htons h.status
    bodylen := htonl h.bodylen
    opaqueField := htonl h.opaqueField
    version := htonll (htonl h.opaqueField).toUInt64 }

/-- The constructor. -/
def make (t : MemcType) (c : MemcCmd) (el : UInt8) (kl : UInt16)
    (vl : UInt32) : MemcHeader :=
  hton ⟨t, c, kl, el, 0, 0, el.toUInt32 + kl.toUInt32 + vl, 0, 0⟩

/-- The object representation; the structure is packed. -/
def bytes (h : MemcHeader) : List UInt8 :=
  [h.type.code, h.cmd.code] ++ toLE 2 h.keylen.toNat ++
    [h.extralen, h.datatype] ++ toLE 2 h.status.toNat ++
    toLE 4 h.bodylen.toNat ++ toLE 4 h.opaqueField.toNat ++
    toLE 8 h.version.toNat

@[simp] theorem length_bytes (h : MemcHeader) : h.bytes.length = size := by
  simp [bytes, size]

/-- `ntohl(hdr->bodylen)` for a header at the start of `seg`. -/
def bodylenAt (seg : List UInt8) : Nat := ofBE ((seg.drop 8).take 4)

end MemcHeader

/-- `MemcExtrasSet`: flags and expiration, both zero. -/
def memcExtrasSet : List UInt8 := List.replicate 8 0

/-- The first `keysize` characters that `snprintf` writes for the format
`%0<keysize>lu`. -/
def formatKey (keysize id : Nat) : List UInt8 :=
  let digits := (Nat.toDigits 10 id).map fun c => c.toNat.toUInt8
  (List.replicate (keysize - digits.length) 48 ++ digits).take keysize

@[simp] theorem length_formatKey (keysize id : Nat) :
    (formatKey keysize id).length = keysize := by
  simp only [formatKey, List.length_take, List.length_append,
    List.length_replicate]
  omega

namespace Memcache

/-! ## The generator -/

/-- The options of `Config` the generator reads. -/
structure Config where
  records : Nat
  keysize : Nat
  valsize : Nat

/-- The generator's own data: `seqid_`, and what the completion callbacks work
on. -/
structure State (K : Type) where
  seqid : UInt64
  client : K

/-- A completion callback does not see `seqid_`. -/
def onClient {K : Type} (cb : RequestCB K) : RequestCB (State K) :=
  fun queueUs serviceUs waitUs bytes measure g =>
    { g with client := cb queueUs serviceUs waitUs bytes measure g.client }

/-- `choose_cmd`, where `low` is whether the draw is below `setget`. -/
def chooseCmd (low : Bool) : MemcCmd := if low then .set else .get

/-- The exception that stands for the division by zero in `choose_key`. -/
def divideByZero : Exn :=
  .undefinedBehaviour "Memcache::choose_key: division by zero"

/-- `choose_key`: the key, as far as `keylen` counts it. -/
def chooseKey {σ : Type} (cfg : Config) (id : UInt64) :
    EStateM Exn σ (List UInt8) :=
  if cfg.records = 0 then throw divideByZero
  else pure ((formatKey cfg.keysize (id.toNat % cfg.records + 1)).take
    (UInt16.ofNat cfg.keysize).toNat)

/-- The header, extras, key and value of a request. -/
def writeRequest {W : Type} {R C : ℕ+} (cfg : Config) (op : MemcCmd)
    (key : List UInt8) (stack : Nat → Nat → UInt8) :
    EStateM Exn (Sock W R C) Unit :=
  match op with
  | .get => do
      Sock.writeEmplace (MemcHeader.make .request op 0
        (UInt16.ofNat cfg.keysize) 0).bytes (stack 0)
      Sock.write key
  | _ => do
      Sock.writeEmplace (MemcHeader.make .request op 8
        (UInt16.ofNat cfg.keysize) (UInt32.ofNat cfg.valsize)).bytes (stack 0)
      Sock.writeEmplace memcExtrasSet (stack 1)
      Sock.write key
      -- just write random bytes for the value
      let _ ← Sock.writePrepare cfg.valsize
      Sock.writeCommit cfg.valsize

/-- `bodlen` of `_send_request`. -/
def bodlen (cfg : Config) : MemcCmd → UInt32
  | .get => (UInt16.ofNat cfg.keysize).toUInt32
  | _ => (UInt16.ofNat cfg.keysize).toUInt32 + 8 + UInt32.ofNat cfg.valsize

/-- The exception that stands for the copy behind the end of `hdr` in
`recv_response`. -/
def copyPastHeader : Exn :=
  .undefinedBehaviour "Memcache::recv_response: copy past the header"

/-- The body length `recv_response` returns.  With two segments the second is
copied to `&hdr + n`, which is `n` whole headers after `hdr`. -/
def bodylen (op : MemcCmd) (segs : Segs) : Except Exn Nat :=
  if op = .set then .ok 0
  else match segs.2 with
    | none => .ok (MemcHeader.bodylenAt segs.1)
    | some _ => .error copyPastHeader

def proto : Proto MemcCmd where
  name := "Memcache"
  size := MemcHeader.size
  respond := fun op _ segs => (bodylen op segs).map fun n => (0, n)

section Model

variable {K : Type} {R C : ℕ+} (cfg : Config) (clk : Nat → Nat)

def sentRequest : TxCB (World MemcCmd (State K) R) :=
  Mutated.Ports.sentRequest clk proto

def recvResponse : RxCB (World MemcCmd (State K) R) :=
  Mutated.Ports.recvResponse clk proto

/-- `seqid_++`. -/
def nextId : EStateM Exn (World MemcCmd (State K) R) UInt64 := do
  let g ← get
  modify fun g => { g with
    client := { g.client with seqid := g.client.seqid + 1 } }
  pure g.client.seqid

/-- `_send_request`. -/
def sendRequest (low measure : Bool) (cb : RequestCB K)
    (stack : Nat → Nat → UInt8) (wout : List WriteRes)
    (rin : List ReadRes) :
    EStateM Exn (Conn MemcCmd (State K) R C) Nat := do
  let id ← Sock.onWorld nextId
  let key ← chooseKey cfg id
  writeRequest cfg (chooseCmd low) key stack
  let p ← Sock.onWorld
    (World.enqueue (chooseCmd low) measure (onClient cb))
  submit clk proto p wout rin
  pure (MemcHeader.size + (bodlen cfg (chooseCmd low)).toNat)

/-- A connection with `seqid_` at `seqid`. -/
def start (addr : Nat) (rmem wmem : Nat → UInt8) (seqid : UInt64)
    (client : K) : Conn MemcCmd (State K) R C :=
  connect addr rmem wmem .get ⟨seqid, client⟩

end Model

/-- The calls of the client on one connection. -/
inductive Call (K : Type)
  | send (low measure : Bool) (cb : RequestCB K)
      (stack : Nat → Nat → UInt8) (wout : List WriteRes)
      (rin : List ReadRes)
  | runIo (events : UInt32) (check : ConnCheck) (rin : List ReadRes)
      (wout : List WriteRes)

def Call.call {K : Type} {R C : ℕ+} (cfg : Config) (clk : Nat → Nat) :
    Call K → EStateM Exn (Conn MemcCmd (State K) R C) Unit
  | .send low measure cb stack wout rin => do
      let _ ← sendRequest cfg clk low measure cb stack wout rin
      pure ()
  | .runIo events check rin wout => Sock.runIo events check rin wout

/-- The commands of the requests a call makes. -/
def Call.cmds {K : Type} : Call K → List MemcCmd
  | .send low _ _ _ _ _ => [chooseCmd low]
  | .runIo _ _ _ _ => []

/-! ## What the calls do -/

section Spec

variable {K : Type} {R C : ℕ+} {cfg : Config} {clk : Nat → Nat}

/-- The number of bytes of a request. -/
def reqLen (cfg : Config) : MemcCmd → Nat
  | .get => MemcHeader.size + (UInt16.ofNat cfg.keysize).toNat
  | _ => MemcHeader.size +
      (8 + ((UInt16.ofNat cfg.keysize).toNat + cfg.valsize))

theorem writeHeader_appends {W : Type} (h : MemcHeader)
    (stack : Nat → UInt8) :
    Appends MemcHeader.size
      (Sock.writeEmplace h.bytes stack : EStateM Exn (Sock W R C) Unit) := by
  rw [← h.length_bytes]
  exact Sock.writeEmplace_appends _ _

theorem writeRequest_writes {W : Type} (op : MemcCmd) (key : List UInt8)
    (stack : Nat → Nat → UInt8) :
    Writes (writeRequest cfg op key stack : EStateM Exn (Sock W R C) Unit) := by
  cases op with
  | get => exact (Sock.writeEmplace_writes _ _).bind (Sock.write_writes _)
  | set =>
      exact (Sock.writeEmplace_writes _ _).bind
        ((Sock.writeEmplace_writes _ _).bind
          ((Sock.write_writes _).bind (Sock.prepareCommit_writes _ _)))
  | setq =>
      exact (Sock.writeEmplace_writes _ _).bind
        ((Sock.writeEmplace_writes _ _).bind
          ((Sock.write_writes _).bind (Sock.prepareCommit_writes _ _)))

theorem writeRequest_appends {W : Type} (op : MemcCmd) {key : List UInt8}
    (hkey : key.length = (UInt16.ofNat cfg.keysize).toNat)
    (stack : Nat → Nat → UInt8) :
    Appends (reqLen cfg op)
      (writeRequest cfg op key stack : EStateM Exn (Sock W R C) Unit) := by
  have hwrite : Appends (UInt16.ofNat cfg.keysize).toNat
      (Sock.write key : EStateM Exn (Sock W R C) Unit) := by
    rw [← hkey]
    exact Sock.write_appends key
  have hset : Appends (8 + ((UInt16.ofNat cfg.keysize).toNat + cfg.valsize))
      (do
        Sock.writeEmplace memcExtrasSet (stack 1)
        Sock.write key
        let _ ← Sock.writePrepare cfg.valsize
        Sock.writeCommit cfg.valsize : EStateM Exn (Sock W R C) Unit) :=
    (Sock.writeEmplace_appends memcExtrasSet (stack 1)).bind
      (hwrite.bind (Sock.prepareCommit_appends _ _))
  cases op with
  | get => exact (writeHeader_appends _ _).bind hwrite
  | set => exact (writeHeader_appends _ _).bind hset
  | setq => exact (writeHeader_appends _ _).bind hset

variable {addr : Nat}
  {A : Queues (World MemcCmd (State K) R) → RequestCB (State K) → Prop}
  {I : List (Sent MemcCmd) → Nat → Queues (World MemcCmd (State K) R) → Prop}

/-- A connection after a call threw `e`: the property `I` held until then, for
requests with the commands `cmds` or fewer. -/
def Halted (addr : Nat)
    (I : List (Sent MemcCmd) → Nat → Queues (World MemcCmd (State K) R) → Prop)
    (cmds : List MemcCmd) (e : Exn) (s : Conn MemcCmd (State K) R C) : Prop :=
  ∃ sent lag q, sent.map Sent.info <+: cmds ∧ I sent lag q ∧
    s.trace = q.trace ∧ (Cause C addr q e ∨ e = divideByZero)

private theorem Halted.of_stopped {sent : List (Sent MemcCmd)} {lag : Nat}
    {cmds : List MemcCmd} {e : Exn} {s : Conn MemcCmd (State K) R C}
    (hcmds : sent.map Sent.info <+: cmds)
    (h : Stopped addr (I sent lag) e s) : Halted addr I cmds e s := by
  obtain ⟨q, hq, htrace, hcause⟩ := h
  exact ⟨sent, lag, q, hcmds, hq, htrace, .inl hcause⟩

/-- `_send_request` once the bytes of the request were written. -/
private theorem enqueue_carried
    (hI : Carried clk proto C addr (reqLen cfg) A I)
    {sent : List (Sent MemcCmd)} {s : Conn MemcCmd (State K) R C}
    (h : Between addr I sent s) (op : MemcCmd) (measure : Bool)
    {cb : RequestCB (State K)} (hA : A s.view cb) {b : Buffer UInt8 C}
    {bytes : List UInt8}
    (hb : b.WF) (hlen : bytes.length = reqLen cfg op)
    (hlist : b.toList = s.wbuf.toList ++ bytes) (wout : List WriteRes)
    (rin : List ReadRes) :
    (∃ s', (Sock.onWorld (World.enqueue op measure cb) >>= fun p =>
        submit clk proto p wout rin) { s with wbuf := b } = .ok () s' ∧
      Between addr I (sent ++ [⟨s.world.requests.tail, op, measure⟩]) s') ∨
    ∃ e s', (Sock.onWorld (World.enqueue op measure cb) >>= fun p =>
        submit clk proto p wout rin) { s with wbuf := b } = .error e s' ∧
      Halted addr I (sent.map Sent.info ++ [op]) e s' := by
  have hbefore : sent.map Sent.info <+: sent.map Sent.info ++ [op] :=
    List.prefix_append ..
  rcases Nat.eq_zero_or_pos s.world.requests.space with hfull | hroom
  · obtain ⟨e, hthrow, hexn⟩ := World.enqueue_throws hfull op measure cb
    exact .inr ⟨e, _, bind_of_error (zoom_of_error hthrow), sent, 0, s.view,
      hbefore, h.holds, rfl, .inl (.buffer hexn)⟩
  have henqueue : Sock.onWorld (World.enqueue op measure cb)
      ({ s with wbuf := b } : Conn MemcCmd (State K) R C) =
      .ok s.world.requests.tail { s with
        wbuf := b, world := s.world.enqueued op measure cb } :=
    zoom_of_ok (World.enqueue_ok (hI.wf h.holds) hroom _ _ _)
  have hprep : Prepared s op measure cb (reqLen cfg op) _ :=
    .mk b bytes hb hroom hlen hlist
  rw [bind_of_ok henqueue]
  rcases submit_kept hI (by decide) h hA hprep wout rin with
    hok | ⟨e, t, hsubmit, hstop | ⟨lag, hstop⟩⟩
  · exact .inl hok
  · exact .inr ⟨e, t, hsubmit, .of_stopped hbefore hstop⟩
  · refine .inr ⟨e, t, hsubmit, .of_stopped ?_ hstop⟩
    rw [List.map_append]
    exact List.prefix_refl _

/-- The key has the length that the header says. -/
theorem length_key (keysize id : Nat) :
    ((formatKey keysize id).take (UInt16.ofNat keysize).toNat).length =
      (UInt16.ofNat keysize).toNat := by
  rw [List.length_take, length_formatKey, UInt16.toNat_ofNat']
  exact Nat.min_eq_left (Nat.mod_le _ _)

/-- A connection whose `seqid_` was read for the next request. -/
def numbered (s : Conn MemcCmd (State K) R C) : Conn MemcCmd (State K) R C :=
  { s with world := { s.world with client :=
    { s.world.client with seqid := s.world.client.seqid + 1 } } }

/-- **`_send_request`**, for a property that may speak of `seqid_`. -/
theorem sendRequest_carried
    (hI : Carried clk proto C addr (reqLen cfg) A I)
    {sent : List (Sent MemcCmd)} {s : Conn MemcCmd (State K) R C}
    (hstart : Between addr I sent (numbered s)) (low measure : Bool)
    (cb : RequestCB K) (hA : A (numbered s).view (onClient cb))
    (stack : Nat → Nat → UInt8) (wout : List WriteRes)
    (rin : List ReadRes) :
    (∃ n s', sendRequest cfg clk low measure cb stack wout rin s = .ok n s' ∧
      Between addr I
        (sent ++ [⟨s.world.requests.tail, chooseCmd low, measure⟩]) s') ∨
    ∃ e s', sendRequest cfg clk low measure cb stack wout rin s =
      .error e s' ∧
      Halted addr I (sent.map Sent.info ++ [chooseCmd low]) e s' := by
  have hid : Sock.onWorld nextId s =
      .ok s.world.client.seqid (numbered s) := rfl
  have hbefore : sent.map Sent.info <+:
      sent.map Sent.info ++ [chooseCmd low] := List.prefix_append ..
  rw [sendRequest, bind_of_ok hid, chooseKey]
  by_cases hrecords : cfg.records = 0
  · rw [if_pos hrecords]
    exact .inr ⟨divideByZero, _, rfl, sent, 0, _, hbefore, hstart.holds, rfl,
      .inr rfl⟩
  rw [if_neg hrecords, bind_of_ok (pure_apply _ _)]
  have hkey := length_key cfg.keysize
    (s.world.client.seqid.toNat % cfg.records + 1)
  generalize (formatKey cfg.keysize (s.world.client.seqid.toNat % cfg.records
    + 1)).take (UInt16.ofNat cfg.keysize).toNat = key at hkey
  cases hwrite : writeRequest cfg (chooseCmd low) key stack (numbered s) with
  | error e t =>
      have hwrites : Writes (writeRequest cfg (chooseCmd low) key stack :
        EStateM Exn (Conn MemcCmd (State K) R C) Unit) :=
        writeRequest_writes _ _ _
      exact .inr ⟨e, t, bind_of_error hwrite, sent, 0, _, hbefore,
        hstart.holds, congrArg (·.2.2.2.1) (hwrites.quiet.of_error hwrite),
        .inl (.buffer (hwrites.throws.of_error hwrite))⟩
  | ok _ t =>
      obtain ⟨b, bytes, rfl, hb, hlen, hlist⟩ :=
        writeRequest_appends (chooseCmd low) hkey stack _ _ hstart.wf hwrite
      rw [bind_of_ok hwrite]
      rcases enqueue_carried hI hstart (chooseCmd low) measure hA hb hlen hlist
          wout rin with ⟨t, hrun, ht⟩ | ⟨e, t, hrun, hhalted⟩
      · obtain ⟨p, u, hp, hsubmit⟩ := bind_eq_ok.mp hrun
        exact .inl ⟨_, t, (bind_of_ok hp).trans
          ((bind_of_ok hsubmit).trans rfl), ht⟩
      · refine .inr ⟨e, t, ?_, hhalted⟩
        rcases bind_eq_error.mp hrun with hp | ⟨p, u, hp, hsubmit⟩
        · exact bind_of_error hp
        · exact (bind_of_ok hp).trans (bind_of_error hsubmit)

/-- **`_send_request`** keeps a property of the steps. -/
theorem sendRequest_kept
    (hI : Kept clk proto C addr (reqLen cfg) (fun _ _ => True) I)
    {sent : List (Sent MemcCmd)} {s : Conn MemcCmd (State K) R C}
    (h : Between addr I sent s) (low measure : Bool) (cb : RequestCB K)
    (stack : Nat → Nat → UInt8) (wout : List WriteRes)
    (rin : List ReadRes) :
    (∃ n s', sendRequest cfg clk low measure cb stack wout rin s = .ok n s' ∧
      Between addr I
        (sent ++ [⟨s.world.requests.tail, chooseCmd low, measure⟩]) s') ∨
    ∃ e s', sendRequest cfg clk low measure cb stack wout rin s =
      .error e s' ∧
      Halted addr I (sent.map Sent.info ++ [chooseCmd low]) e s' :=
  sendRequest_carried hI.toCarried (h.client hI _) low measure _ trivial stack
    wout rin

/-- **A call** keeps a property of the steps. -/
theorem call_kept
    (hI : Kept clk proto C addr (reqLen cfg) (fun _ _ => True) I)
    {sent : List (Sent MemcCmd)} {s : Conn MemcCmd (State K) R C}
    (h : Between addr I sent s) (c : Call K) :
    (∃ sent' s', c.call cfg clk s = .ok () s' ∧
      sent'.map Sent.info = sent.map Sent.info ++ c.cmds ∧
      Between addr I sent' s') ∨
    ∃ e s', c.call cfg clk s = .error e s' ∧
      Halted addr I (sent.map Sent.info ++ c.cmds) e s' := by
  cases c with
  | send low measure cb stack wout rin =>
      rcases sendRequest_kept hI h low measure cb stack wout rin with
        ⟨n, s', hrun, hs'⟩ | ⟨e, s', hrun, hhalted⟩
      · exact .inl ⟨_, s', (bind_of_ok hrun).trans rfl, by simp [Call.cmds],
          hs'⟩
      · exact .inr ⟨e, s', bind_of_error hrun, hhalted⟩
  | runIo events check rin wout =>
      rcases runIo_kept hI.toCarried h events check rin wout with
        ⟨s', hrun, hs'⟩ | ⟨e, s', hrun, hstop⟩
      · exact .inl ⟨sent, s', hrun, by simp [Call.cmds], hs'⟩
      · exact .inr ⟨e, s', hrun, .of_stopped (List.prefix_append ..) hstop⟩

/-- **A run** keeps a property of the steps. -/
theorem run_kept
    (hI : Kept clk proto C addr (reqLen cfg) (fun _ _ => True) I)
    {s : Conn MemcCmd (State K) R C} (h : Between addr I [] s)
    (calls : List (Call K)) :
    (∃ sent s', runAll (Call.call cfg clk) calls s = .ok () s' ∧
      sent.map Sent.info = calls.flatMap Call.cmds ∧
      Between addr I sent s') ∨
    ∃ e s', runAll (Call.call cfg clk) calls s = .error e s' ∧
      Halted addr I (calls.flatMap Call.cmds) e s' := by
  have hpast : ∀ {cs : List (Call K)} {t : Conn MemcCmd (State K) R C},
      runAll (Call.call cfg clk) cs s = .ok () t →
      ∃ sent, sent.map Sent.info = cs.flatMap Call.cmds ∧
        Between addr I sent t := by
    intro cs t hrun
    refine runAll_invariant (P := fun past t => ∃ sent : List (Sent MemcCmd),
      sent.map Sent.info = past.flatMap Call.cmds ∧ Between addr I sent t)
      ?_ cs [] ⟨[], rfl, h⟩ hrun
    rintro past c u v ⟨sent, hsent, hu⟩ hcall
    rcases call_kept hI hu c with
      ⟨sent', v', hcall', hsent', hv⟩ | ⟨e, v', hcall', -⟩
    · cases hcall'.symm.trans hcall
      refine ⟨sent', ?_, hv⟩
      rw [hsent', hsent, List.flatMap_append, List.flatMap_singleton]
    · cases hcall'.symm.trans hcall
  cases hrun : runAll (Call.call cfg clk) calls s with
  | ok _ t =>
      obtain ⟨sent, hsent, ht⟩ := hpast hrun
      exact .inl ⟨sent, t, rfl, hsent, ht⟩
  | error e t =>
      obtain ⟨past, c, rest, u, rfl, hok, hthrow⟩ := runAll_error calls hrun
      obtain ⟨sent, hsent, hu⟩ := hpast hok
      rcases call_kept hI hu c with
        ⟨sent', v, hcall, -⟩ | ⟨e', v, hcall, sent', lag, q, hpre, hrest⟩
      · cases hcall.symm.trans hthrow
      · cases hcall.symm.trans hthrow
        refine .inr ⟨e, t, rfl, sent', lag, q, hpre.trans ?_, hrest⟩
        rw [hsent, List.flatMap_append, List.flatMap_cons, ← List.append_assoc]
        exact List.prefix_append ..

end Spec

end Memcache

end Mutated.Ports
