import Mutated.Ports.MemcacheWire

/-!
# The generator's requests as a server reads them

A get is a header and a key, a set also has extras and a value; the value is
whatever the ring holds.  `run_requests`: as long as no request has its header
or its extras cut by the end of the ring, a server reads one request for each
`send_request`, in order, with the command that was drawn and the key of its
sequence number.
-/

namespace Mutated.Ports

open Mutated.Verified.Circular
open Mutated.Verified.Exec
open Mutated.Verified.Framing

namespace Memcache

variable {K : Type} {R C : ℕ+} {cfg : Config} {clk : Nat → Nat}

/-! ## One request -/

/-- The extras of a request. -/
def extrasOf : MemcCmd → List UInt8
  | .get => []
  | _ => memcExtrasSet

/-- `r` is a request for the record of sequence number `id`. -/
structure RequestOf (cfg : Config) (op : MemcCmd) (id : UInt64)
    (r : MemcPacket) : Prop where
  cmd : r.cmd = op
  extras : r.extras = extrasOf op
  key : r.key = keyFor cfg id
  value : r.value.length = valLen cfg op

/-- The ring cuts neither the header nor the extras of a request whose first
byte goes to slot `tail`. -/
def WholeRequest (C : Nat) (op : MemcCmd) (tail : Nat) : Prop :=
  tail + MemcHeader.size ≤ C ∧
    (tail + MemcHeader.size) % C + (extrasOf op).length ≤ C

/-- A set fits into its header. -/
def Config.Short (cfg : Config) : Prop :=
  8 + cfg.keysize + cfg.valsize < 2 ^ 32

section One

variable {op : MemcCmd} {id : UInt64} {r : MemcPacket}

theorem length_extrasOf (op : MemcCmd) :
    (extrasOf op).length = extralen op := by
  cases op <;> rfl

theorem length_keyFor (cfg : Config) (id : UInt64) :
    (keyFor cfg id).length = (UInt16.ofNat cfg.keysize).toNat :=
  length_key _ _

theorem RequestOf.length_body (h : RequestOf cfg op id r) :
    r.body.length =
      extralen op + (UInt16.ofNat cfg.keysize).toNat + valLen cfg op := by
  rw [MemcPacket.length_body, h.extras, h.key, h.value, length_extrasOf,
    length_keyFor]

theorem RequestOf.length_bytes (h : RequestOf cfg op id r) :
    r.bytes.length = reqLen cfg op := by
  rw [MemcPacket.length_bytes, h.length_body]
  cases op with
  | get => simp [reqLen, extralen, valLen]
  | set => simp [reqLen, extralen, valLen, Nat.add_assoc]
  | setq => simp [reqLen, extralen, valLen, Nat.add_assoc]

theorem RequestOf.fits (hshort : cfg.Short) (h : RequestOf cfg op id r) :
    r.Fits := by
  have hkey : (UInt16.ofNat cfg.keysize).toNat ≤ cfg.keysize :=
    Nat.mod_le _ _
  have hsize := hshort
  unfold Config.Short at hsize
  refine ⟨?_, ?_, ?_⟩
  · rw [h.extras, length_extrasOf]
    cases op <;> simp [extralen]
  · rw [h.key, length_keyFor]
    exact UInt16.toNat_lt _
  · rw [h.length_body]
    cases op <;> simp only [extralen, valLen] <;> omega

/-- There is such a request. -/
theorem RequestOf.exists (cfg : Config) (op : MemcCmd) (id : UInt64) :
    ∃ r, RequestOf cfg op id r :=
  ⟨⟨op, extrasOf op, keyFor cfg id, List.replicate (valLen cfg op) 0⟩, rfl,
    rfl, rfl, List.length_replicate⟩

/-- The header of a request. -/
theorem RequestOf.header_eq (h : RequestOf cfg op id r) :
    r.header = requestHeader cfg op := by
  have hval : UInt32.ofNat (valLen cfg op) = UInt32.ofNat r.value.length := by
    rw [h.value]
  rw [MemcPacket.header, h.cmd, h.extras, h.key, ← hval, length_keyFor,
    length_extrasOf, UInt16.ofNat_toNat]
  cases op <;> rfl

end One

/-- **What a request adds** at a slot where the ring does not cut it. -/
theorem writeRequest_lays {W : Type} (op : MemcCmd) (id : UInt64)
    (stack : Nat → Nat → UInt8) :
    Lays (fun tail bytes => WholeRequest C op tail →
      ∃ r, RequestOf cfg op id r ∧ bytes = r.bytes)
      (writeRequest cfg op (keyFor cfg id) stack :
        EStateM Exn (Sock W R C) Unit) := by
  have hset : ∀ op, extrasOf op = memcExtrasSet → valLen cfg op = cfg.valsize →
      Lays (fun tail bytes => WholeRequest C op tail →
        ∃ r, RequestOf cfg op id r ∧ bytes = r.bytes)
      (do
        Sock.writeEmplace (requestHeader cfg op).bytes (stack 0)
        Sock.writeEmplace memcExtrasSet (stack 1)
        Sock.write (keyFor cfg id)
        let _ ← Sock.writePrepare cfg.valsize
        Sock.writeCommit cfg.valsize : EStateM Exn (Sock W R C) Unit) := by
    intro op hextras hval
    refine ((Sock.writeEmplace_lays _ _).bind
      ((Sock.writeEmplace_lays _ _).bind ((Sock.write_lays _).bind
        (Sock.prepareCommit_lays _ _)))).mono ?_
    rintro tail _ - ⟨_, _, rfl, rfl, _, _, rfl, rfl, _, value, rfl, rfl, hlen⟩
      ⟨hheader, hwhole⟩
    have hr : RequestOf cfg op id ⟨op, extrasOf op, keyFor cfg id, value⟩ :=
      ⟨rfl, rfl, rfl, hlen.trans hval.symm⟩
    refine ⟨_, hr, ?_⟩
    rw [hextras] at hwhole
    rw [Sock.emplaced_whole (by rw [MemcHeader.length_bytes]; exact hheader),
      MemcHeader.length_bytes, Sock.emplaced_whole hwhole, MemcPacket.bytes,
      hr.header_eq, MemcPacket.body, hextras]
  cases op with
  | get =>
      refine ((Sock.writeEmplace_lays _ _).bind (Sock.write_lays _)).mono ?_
      rintro tail _ - ⟨_, _, rfl, rfl, rfl⟩ ⟨hheader, -⟩
      have hr : RequestOf cfg .get id ⟨.get, [], keyFor cfg id, []⟩ :=
        ⟨rfl, rfl, rfl, rfl⟩
      refine ⟨_, hr, ?_⟩
      rw [Sock.emplaced_whole (by rw [MemcHeader.length_bytes]; exact hheader),
        MemcPacket.bytes, hr.header_eq, MemcPacket.body]
      simp [requestHeader]
  | set => exact hset .set rfl rfl
  | setq => exact hset .setq rfl rfl

/-! ## One call -/

section Calls

variable {s s' : Conn MemcCmd (State K) R C}

/-- `_send_request` once the bytes of the request were written. -/
private theorem submit_placed (h : Placed s) {op : MemcCmd} {measure : Bool}
    {cb : RequestCB (State K)} {n m : Nat} {wout : List WriteRes}
    {rin : List ReadRes}
    (hrun : (do
      let p ← Sock.onWorld (World.enqueue op measure cb)
      submit clk proto p wout rin
      pure n : EStateM Exn (Conn MemcCmd (State K) R C) Nat) s = .ok m s') :
    Placed s' := by
  obtain ⟨p, t, hqueue, hrest⟩ := bind_eq_ok.mp hrun
  obtain ⟨⟨⟩, u, hsubmit, hpure⟩ := bind_eq_ok.mp hrest
  cases hpure
  obtain ⟨⟨⟩, v, hstamp, hpoint⟩ := bind_eq_ok.mp hsubmit
  obtain ⟨⟨⟩, v', hcb, htry⟩ := bind_eq_ok.mp hpoint
  obtain ⟨⟨⟩, v'', htx, hread⟩ := bind_eq_ok.mp htry
  have hv := ((h.onWorld hqueue).1.onWorld hstamp).1
  exact ((((hv.writeCbPoint hcb).1).tryTx htx).1.read hread).1

/-- **`_send_request`** adds one request to the bytes. -/
theorem sendRequest_delivers (clk : Nat → Nat) (h : Placed s)
    (hrecords : cfg.records ≠ 0)
    (low measure : Bool) (cb : RequestCB K) (stack : Nat → Nat → UInt8)
    (wout : List WriteRes) (rin : List ReadRes)
    (hwhole : WholeRequest C (chooseCmd low) (s.view.stream.length % C)) :
    ∃ r, RequestOf cfg (chooseCmd low) s.world.client.seqid r ∧
      Leaves (s.view.stream ++ r.bytes)
        (sendRequest cfg clk low measure cb stack wout rin s) ∧
      ∀ n s', sendRequest cfg clk low measure cb stack wout rin s =
        .ok n s' → Placed s' := by
  have hid : Sock.onWorld nextId s =
      .ok s.world.client.seqid (numbered s) := rfl
  have hnumbered : Placed (numbered s) :=
    ⟨⟨h.wf.rxCbs, h.wf.rbuf, h.wf.txCbs, h.wf.wbuf⟩, h.tail⟩
  have hunfold : sendRequest cfg clk low measure cb stack wout rin s =
      (writeRequest cfg (chooseCmd low) (keyFor cfg s.world.client.seqid)
          stack >>= fun _ => do
        let p ← Sock.onWorld
          (World.enqueue (chooseCmd low) measure (onClient cb))
        submit clk proto p wout rin
        pure (MemcHeader.size + (bodlen cfg (chooseCmd low)).toNat) :
        EStateM Exn (Conn MemcCmd (State K) R C) Nat) (numbered s) := by
    rw [sendRequest, bind_of_ok hid, chooseKey, if_neg hrecords,
      bind_of_ok (pure_apply _ _)]
    rfl
  rw [hunfold]
  cases hwrite : writeRequest cfg (chooseCmd low)
      (keyFor cfg s.world.client.seqid) stack (numbered s) with
  | ok _ t =>
      obtain ⟨ht, bytes, hbytes, hstream⟩ :=
        hnumbered.lays (writeRequest_lays _ _ stack) hwrite
      obtain ⟨r, hr, rfl⟩ := hbytes hwhole
      have hstream' : t.view.stream = s.view.stream ++ r.bytes := hstream
      refine ⟨r, hr, ?_, fun n s' hrun => ?_⟩
      · rw [bind_of_ok hwrite, ← hstream']
        exact submit_leaves ht.wf _ measure _ _ wout rin
      · rw [bind_of_ok hwrite] at hrun
        exact submit_placed ht hrun
  | error e t =>
      have htrace : t.trace = s.trace := congrArg (·.2.2.2.1)
        ((writeRequest_writes _ _ stack).quiet.of_error hwrite)
      obtain ⟨r, hr⟩ := RequestOf.exists cfg (chooseCmd low)
        s.world.client.seqid
      refine ⟨r, hr, ?_, fun n s' hrun => ?_⟩
      · rw [bind_of_error hwrite]
        refine .error ?_
        rw [htrace]
        exact (List.prefix_append _ s.view.wbuf).trans
          (List.prefix_append ..)
      · rw [bind_of_error hwrite] at hrun
        cases hrun

end Calls

/-! ## Runs -/

/-- The number of bytes of the requests with these commands. -/
def sizeOf (cfg : Config) (cmds : List MemcCmd) : Nat :=
  (cmds.map (reqLen cfg)).sum

/-- The requests with these commands, for the sequence numbers from `seqid`
on. -/
def Requests (cfg : Config) (seqid : UInt64) (cmds : List MemcCmd)
    (rs : List MemcPacket) : Prop :=
  ∀ (i : Nat) (r : MemcPacket), rs[i]? = some r →
    ∃ op, cmds[i]? = some op ∧ RequestOf cfg op (seqid + UInt64.ofNat i) r

/-- The ring cuts no request of the run. -/
def Whole (C : Nat) (cfg : Config) (cmds : List MemcCmd) : Prop :=
  ∀ past op, past ++ [op] <+: cmds → WholeRequest C op (sizeOf cfg past % C)

section Runs

variable {seqid : UInt64} {cmds : List MemcCmd} {rs : List MemcPacket}

/-- One more request. -/
theorem Requests.snoc (h : Requests cfg seqid cmds rs)
    (hlen : rs.length = cmds.length) {op : MemcCmd} {r : MemcPacket}
    (hr : RequestOf cfg op (seqid + UInt64.ofNat rs.length) r) :
    Requests cfg seqid (cmds ++ [op]) (rs ++ [r]) := by
  intro i r' hi
  rcases Nat.lt_or_ge i rs.length with hlt | hge
  · rw [List.getElem?_append_left hlt] at hi
    obtain ⟨op', hop, hof⟩ := h i r' hi
    refine ⟨op', ?_, hof⟩
    rwa [List.getElem?_append_left (by omega)]
  · rw [List.getElem?_append_right hge] at hi
    obtain ⟨hzero, rfl⟩ := List.getElem?_eq_some_iff.mp hi
    have hlast : i = rs.length := by
      simp only [List.length_singleton] at hzero
      omega
    subst hlast
    refine ⟨op, by simp [hlen], ?_⟩
    simpa using hr

/-- More commands. -/
theorem Requests.more (h : Requests cfg seqid cmds rs) (more : List MemcCmd) :
    Requests cfg seqid (cmds ++ more) rs := by
  intro i r hi
  obtain ⟨op, hop, hof⟩ := h i r hi
  refine ⟨op, ?_, hof⟩
  rw [List.getElem?_append_left (List.getElem?_eq_some_iff.mp hop).1]
  exact hop

theorem Requests.encodes (hshort : cfg.Short)
    (h : Requests cfg seqid cmds rs) :
    List.Forall₂ (Encodes readRequest) rs (rs.map MemcPacket.bytes) := by
  rw [List.forall₂_map_right_iff, List.forall₂_same]
  intro r hr
  obtain ⟨i, hi⟩ := List.mem_iff_getElem?.mp hr
  obtain ⟨op, -, hof⟩ := h i r hi
  exact (hof.fits hshort).encodes

theorem Requests.length_bytes (h : Requests cfg seqid cmds rs)
    (hlen : rs.length = cmds.length) :
    (rs.map MemcPacket.bytes).flatten.length = sizeOf cfg cmds := by
  have hsizes : rs.map (fun r => r.bytes.length) = cmds.map (reqLen cfg) := by
    apply List.ext_getElem?
    intro i
    rw [List.getElem?_map, List.getElem?_map]
    rcases Nat.lt_or_ge i rs.length with hlt | hge
    · have hi := List.getElem?_eq_getElem hlt
      obtain ⟨op, hop, hof⟩ := h i _ hi
      rw [hi, hop]
      exact congrArg some hof.length_bytes
    · rw [List.getElem?_eq_none hge, List.getElem?_eq_none (by omega)]
      rfl
  rw [List.length_flatten, List.map_map, sizeOf, ← hsizes]
  rfl

/-- **The bytes after some calls** are the requests they made. -/
structure Asking (cfg : Config) (seqid : UInt64) (cmds : List MemcCmd)
    (rs : List MemcPacket) (s : Conn MemcCmd (State K) R C) : Prop where
  placed : Placed s
  stream : s.view.stream = (rs.map MemcPacket.bytes).flatten
  length : rs.length = cmds.length
  requests : Requests cfg seqid cmds rs
  seqid : s.world.client.seqid = seqid + UInt64.ofNat rs.length

variable {s s' : Conn MemcCmd (State K) R C}

/-- **A call** adds its request. -/
theorem Asking.call (clk : Nat → Nat) (hrecords : cfg.records ≠ 0)
    (h : Asking cfg seqid cmds rs s) (c : Call K)
    (hwhole : Whole C cfg (cmds ++ c.cmds)) :
    ∃ rs', Requests cfg seqid (cmds ++ c.cmds) rs' ∧
      rs'.length = (cmds ++ c.cmds).length ∧
      Leaves (rs'.map MemcPacket.bytes).flatten (c.call cfg clk s) ∧
      ∀ s', c.call cfg clk s = .ok () s' → Placed s' := by
  cases c with
  | send low measure cb stack wout rin =>
      have hhere := hwhole cmds (chooseCmd low) (List.prefix_refl _)
      rw [← h.requests.length_bytes h.length, ← h.stream] at hhere
      obtain ⟨r, hr, hleaves, hok⟩ := sendRequest_delivers clk
        h.placed hrecords low measure cb stack wout rin hhere
      rw [h.seqid] at hr
      refine ⟨rs ++ [r], h.requests.snoc h.length hr, ?_, ?_, ?_⟩
      · simp [Call.cmds, h.length]
      · rw [List.map_append, List.flatten_append, ← h.stream]
        simp only [List.map_cons, List.map_nil, List.flatten_cons,
          List.flatten_nil, List.append_nil]
        exact hleaves.bind fun _ t ht hstream => .ok ht hstream
      · intro s' hcall
        obtain ⟨n, t, hsend, hpure⟩ := bind_eq_ok.mp hcall
        cases hpure
        exact hok n _ hsend
  | runIo events check rin wout =>
      have hsame : cmds ++ Call.cmds
          (Call.runIo events check rin wout : Call K) = cmds :=
        List.append_nil _
      rw [hsame]
      exact ⟨rs, h.requests, h.length,
        Leaves.runIo h.placed.wf h.stream events check rin wout,
        fun s' hcall => (h.placed.runIo hcall).1⟩

/-- The start of the commands of a run. -/
theorem Whole.of_prefix {more : List MemcCmd} (h : Whole C cfg more)
    (hcmds : cmds <+: more) : Whole C cfg cmds :=
  fun past op hpast => h past op (hpast.trans hcmds)

/-- No request is cut when all of them fit into the ring. -/
theorem whole_of_le (hfit : sizeOf cfg cmds ≤ C) : Whole C cfg cmds := by
  rintro past op ⟨more, rfl⟩
  have hsize : sizeOf cfg past + reqLen cfg op ≤ C := by
    simp only [sizeOf, List.map_append, List.sum_append, List.map_singleton,
      List.sum_singleton] at hfit ⊢
    omega
  have hheader : MemcHeader.size = 24 := rfl
  have hextras : MemcHeader.size + (extrasOf op).length ≤ reqLen cfg op := by
    rw [length_extrasOf]
    cases op <;> simp only [extralen, reqLen] <;> omega
  have hpast : sizeOf cfg past % C = sizeOf cfg past :=
    Nat.mod_eq_of_lt (by omega)
  rw [WholeRequest, hpast]
  refine ⟨by omega, ?_⟩
  rcases Nat.lt_or_eq_of_le (show sizeOf cfg past + MemcHeader.size ≤ C
    by omega) with hlt | heq
  · rw [Nat.mod_eq_of_lt hlt]
    omega
  · rw [heq, Nat.mod_self]
    omega

/-- **A run** of the generator that has returned. -/
theorem asking_of_run (hrecords : cfg.records ≠ 0) (addr : Nat)
    (rmem wmem : Nat → UInt8) (seqid : UInt64) (client : K)
    {calls : List (Call K)} (hwhole : Whole C cfg (calls.flatMap Call.cmds))
    (hrun : runAll (Call.call cfg clk) calls
      (start addr rmem wmem seqid client) = .ok () s) :
    ∃ rs sent, Asking cfg seqid (calls.flatMap Call.cmds) rs s ∧
      At clk addr (seqid + UInt64.ofNat rs.length) sent s := by
  have hstart : At clk addr (seqid + UInt64.ofNat 0) []
      (start addr rmem wmem seqid client :
        Conn MemcCmd (State K) R C) := by
    refine ⟨⟨Sock.init_wf _ _ _ _, rfl, .init rmem wmem MemcCmd.get _ ?_⟩,
      rfl, rfl, ?_⟩
    · exact (UInt64.add_zero _).symm
    · intro op hop
      cases hop
  refine runAll_reaches (P := fun past t => ∃ rs sent,
    Asking cfg seqid (past.flatMap Call.cmds) rs t ∧
      At clk addr (seqid + UInt64.ofNat rs.length) sent t) ?_ ?_ hrun
  · refine ⟨[], [], ⟨.init _ _ _ _, rfl, rfl, ?_, (UInt64.add_zero _).symm⟩,
      hstart⟩
    intro i r hr
    cases hr
  · rintro past c rest t u rfl hpast ⟨rs, sent, ht, hat⟩ hcall
    have hcmds : past.flatMap Call.cmds ++ c.cmds <+:
        (past ++ c :: rest).flatMap Call.cmds := by
      rw [List.flatMap_append, List.flatMap_cons, ← List.append_assoc]
      exact List.prefix_append ..
    obtain ⟨rs', hreqs, hlen, hleaves, hok⟩ :=
      ht.call clk hrecords c (hwhole.of_prefix hcmds)
    obtain ⟨sent', hu⟩ := (call_leaves hrecords hat c).2 u hcall
    have hcount : seqid + UInt64.ofNat rs.length +
        UInt64.ofNat c.cmds.length = seqid + UInt64.ofNat rs'.length := by
      rw [hlen, List.length_append, UInt64.ofNat_add, ht.length,
        UInt64.add_assoc]
    rw [hcount] at hu
    have hflat : (past ++ [c]).flatMap Call.cmds =
        past.flatMap Call.cmds ++ c.cmds := by
      rw [List.flatMap_append, List.flatMap_singleton]
    rw [hflat]
    exact ⟨rs', sent', ⟨hok u hcall, hleaves.stream_eq hcall, hlen, hreqs,
      hu.holds.told⟩, hu⟩

/-- **A run** leaves the start of its requests on the wire; when it returns,
the others wait in `wbuf_`. -/
theorem run_delivers (hrecords : cfg.records ≠ 0) (addr : Nat)
    (rmem wmem : Nat → UInt8) (seqid : UInt64) (client : K)
    (calls : List (Call K)) (hwhole : Whole C cfg (calls.flatMap Call.cmds))
    {r : EStateM.Result Exn (Conn MemcCmd (State K) R C) Unit}
    (hrun : runAll (Call.call cfg clk) calls
      (start addr rmem wmem seqid client) = r) :
    ∃ rs, Requests cfg seqid (calls.flatMap Call.cmds) rs ∧
      accepted (after r).trace <+: (rs.map MemcPacket.bytes).flatten ∧
      ∀ s, r = .ok () s →
        rs.length = (calls.flatMap Call.cmds).length ∧
        s.view.stream = (rs.map MemcPacket.bytes).flatten := by
  subst hrun
  cases hrun : runAll (Call.call cfg clk) calls
      (start addr rmem wmem seqid client :
        Conn MemcCmd (State K) R C) with
  | ok _ t =>
      obtain ⟨rs, -, ht, -⟩ :=
        asking_of_run hrecords addr rmem wmem seqid client hwhole hrun
      refine ⟨rs, ht.requests, ⟨t.view.wbuf, ht.stream⟩, fun s hs => ?_⟩
      cases hs
      exact ⟨ht.length, ht.stream⟩
  | error e t =>
      obtain ⟨past, c, rest, u, rfl, hpast, hthrow⟩ := runAll_error calls hrun
      have hcmds : (past ++ c :: rest).flatMap Call.cmds =
          past.flatMap Call.cmds ++ c.cmds ++ rest.flatMap Call.cmds := by
        rw [List.flatMap_append, List.flatMap_cons, List.append_assoc]
      rw [hcmds] at hwhole ⊢
      have hbefore := hwhole.of_prefix (List.prefix_append ..)
      obtain ⟨rs, -, hu, -⟩ := asking_of_run hrecords addr rmem wmem seqid
        client (hbefore.of_prefix (List.prefix_append ..)) hpast
      obtain ⟨rs', hreqs, -, hleaves, -⟩ :=
        hu.call clk hrecords c hbefore
      rw [hthrow] at hleaves
      refine ⟨rs', hreqs.more _, ?_, fun s hs => by cases hs⟩
      cases hleaves with
      | error hstart => exact hstart

/-- **A server reads the requests.**  Whichever way the run ends, a server
reads the first requests of the run off what the kernel accepted; when it
returns, all of them are there and nothing else. -/
theorem run_requests (hrecords : cfg.records ≠ 0) (hshort : cfg.Short)
    (addr : Nat) (rmem wmem : Nat → UInt8) (seqid : UInt64) (client : K)
    (calls : List (Call K)) (hwhole : Whole C cfg (calls.flatMap Call.cmds))
    {r : EStateM.Result Exn (Conn MemcCmd (State K) R C) Unit}
    (hrun : runAll (Call.call cfg clk) calls
      (start addr rmem wmem seqid client) = r) :
    ∃ rs, Requests cfg seqid (calls.flatMap Call.cmds) rs ∧
      (messages readRequest (accepted (after r).trace)).1 <+: rs ∧
      ∀ s, r = .ok () s →
        rs.length = (calls.flatMap Call.cmds).length ∧
        messages readRequest s.view.stream = (rs, []) := by
  obtain ⟨rs, hreqs, hstart, hall⟩ :=
    run_delivers hrecords addr rmem wmem seqid client calls hwhole hrun
  have hencodes := hreqs.encodes hshort
  refine ⟨rs, hreqs, messages_of_prefix readRequest_lawful hencodes hstart,
    fun s hs => ?_⟩
  obtain ⟨hlen, hstream⟩ := hall s hs
  rw [hstream]
  exact ⟨hlen, messages_flatten readRequest_lawful hencodes⟩

/-- A set and a get for the only record. -/
private def setGet : List (Call Unit) :=
  [.send true true (fun _ _ _ _ _ k => k) (fun _ _ => 0) [] [],
    .send false true (fun _ _ _ _ _ k => k) (fun _ _ => 0) [] []]

theorem run_requests_setGet : ∃ (rs : List MemcPacket)
    (s : Conn MemcCmd (State Unit) maxOutstandingReqs charbufSize),
    Requests ⟨1, 1, 1⟩ 0 [.set, .get] rs ∧ rs.length = 2 ∧
      messages readRequest s.view.stream = (rs, []) := by
  have hrun := eq_ok_of_returned (r := runAll (Call.call ⟨1, 1, 1⟩ id) setGet
    (start 0 (fun _ => 0) (fun _ => 0) 0 () :
      Conn MemcCmd (State Unit) maxOutstandingReqs charbufSize))
    (by decide +kernel)
  have hshort : Config.Short ⟨1, 1, 1⟩ := show 8 + 1 + 1 < 2 ^ 32 by decide
  obtain ⟨rs, hreqs, -, hall⟩ := run_requests (by decide) hshort 0
    (fun _ => 0) (fun _ => 0) 0 () setGet (whole_of_le (by decide +kernel))
    hrun
  obtain ⟨hlen, hread⟩ := hall _ rfl
  exact ⟨rs, _, hreqs, hlen, hread⟩

end Runs

end Memcache

end Mutated.Ports
