import Mutated.Ports.GeneratorClient
import Mutated.Ports.MemcacheTable
import Mutated.Ports.SockWire

/-!
# The keys of the loader and the generator

The loader prints the key of each set when it sends it.  The generator picks
one of its array of keys, at the sequence number modulo the number of records.

## Main results

`keys_agree`: the key of every request is the one the loader writes for the
number of that record.
-/

namespace Mutated.Ports

open Mutated.Verified.Exec

/-! ## Bytes with a key -/

/-- `n` bytes, the key, and `m` bytes. -/
def Keyed (n m : Nat) (key bytes : List UInt8) : Prop :=
  ∃ front back, bytes = front ++ key ++ back ∧ front.length = n ∧
    back.length = m

theorem Keyed.exists (n m : Nat) (key : List UInt8) :
    ∃ bytes, Keyed n m key bytes :=
  ⟨_, List.replicate n 0, List.replicate m 0, rfl, List.length_replicate,
    List.length_replicate⟩

theorem Keyed.behind {n m : Nat} {key bytes : List UInt8}
    (h : Keyed n m key bytes) (hdr : List UInt8) :
    Keyed (hdr.length + n) m key (hdr ++ bytes) := by
  obtain ⟨front, back, rfl, hfront, hback⟩ := h
  refine ⟨hdr ++ front, back, by simp, ?_, hback⟩
  rw [List.length_append, hfront]

section Keyed

variable {W : Type} {R C : ℕ+} {n k m : Nat} {key : List UInt8}
  {x y : EStateM Exn (Sock W R C) Unit}

/-- A key moves back by what is added in front of it. -/
theorem Appends.keyed (hx : Appends n x) (hy : Puts (Keyed k m key) y) :
    Puts (Keyed (n + k) m key) (x >>= fun _ => y) := by
  refine (hx.puts.bind hy).mono ?_
  rintro _ ⟨hdr, bytes, rfl, rfl, hkeyed⟩
  exact hkeyed.behind hdr

/-- A key at the end. -/
theorem puts_key (key : List UInt8) :
    Puts (Keyed 0 0 key) (Sock.write key : EStateM Exn (Sock W R C) Unit) := by
  refine (Sock.write_puts key).mono ?_
  rintro _ rfl
  exact ⟨[], [], (List.append_nil _).symm, rfl, rfl⟩

/-- A key in front of a value. -/
theorem puts_keyed (key : List UInt8) (hy : Appends m y) :
    Puts (Keyed 0 m key) (Sock.write key >>= fun _ => y) := by
  refine ((Sock.write_puts key).bind hy.puts).mono ?_
  rintro _ ⟨_, val, rfl, rfl, hval⟩
  exact ⟨[], val, rfl, rfl, hval⟩

end Keyed

/-! ## The requests of the generator -/

namespace Memcache

/-- The bytes of a request in front of its key. -/
def keyOffset : MemcCmd → Nat
  | .get => MemcHeader.size
  | _ => MemcHeader.size + 8

/-- The bytes of a request behind its key. -/
def valLen (cfg : Config) : MemcCmd → Nat
  | .get => 0
  | _ => cfg.valsize

section Requests

variable {K : Type} {R C : ℕ+} {cfg : Config} {clk : Nat → Nat}

/-- What a request adds behind its header. -/
theorem writeExtras_puts {W : Type} (key : List UInt8)
    (stack : Nat → Nat → UInt8) :
    Puts (Keyed 8 cfg.valsize key)
      (do
        Sock.writeEmplace memcExtrasSet (stack 1)
        Sock.write key
        let _ ← Sock.writePrepare cfg.valsize
        Sock.writeCommit cfg.valsize :
        EStateM Exn (Sock W R C) Unit) :=
  (Sock.writeEmplace_appends memcExtrasSet (stack 1)).keyed
    (puts_keyed key (Sock.prepareCommit_appends _ cfg.valsize))

theorem writeRequest_puts {W : Type} (op : MemcCmd) (key : List UInt8)
    (stack : Nat → Nat → UInt8) :
    Puts (Keyed (keyOffset op) (valLen cfg op) key)
      (writeRequest cfg op key stack : EStateM Exn (Sock W R C) Unit) := by
  cases op with
  | get => exact (writeHeader_appends _ _).keyed (puts_key key)
  | set => exact (writeHeader_appends _ _).keyed (writeExtras_puts key stack)
  | setq => exact (writeHeader_appends _ _).keyed (writeExtras_puts key stack)

/-- The key that `_send_request` writes for a sequence number. -/
def keyFor (cfg : Config) (id : UInt64) : List UInt8 :=
  (formatKey cfg.keysize (id.toNat % cfg.records + 1)).take
    (UInt16.ofNat cfg.keysize).toNat

theorem Config.Fits.keyFor_eq (hfits : cfg.Fits) (id : UInt64) :
    keyFor cfg id = formatKey cfg.keysize (id.toNat % cfg.records + 1) := by
  rw [keyFor, hfits.keylen_eq]
  exact List.take_of_length_le (Nat.le_of_eq (length_formatKey _ _))

/-- `_send_request` once the bytes of the request were written. -/
theorem submit_leaves {s : Conn MemcCmd (State K) R C} (h : s.WF)
    (op : MemcCmd) (measure : Bool) (cb : RequestCB (State K)) (n : Nat)
    (wout : List WriteRes) (rin : List ReadRes) :
    Leaves s.view.stream
      ((do
        let p ← Sock.onWorld (World.enqueue op measure cb)
        submit clk proto p wout rin
        pure n : EStateM Exn (Conn MemcCmd (State K) R C) Nat) s) := by
  refine (Leaves.onWorld h rfl _).bind fun p u hu hstream => ?_
  refine Leaves.bind (x := submit clk proto p wout rin) ?_
    fun _ v hv hstream => .ok hv hstream
  refine (Leaves.onWorld hu hstream _).bind fun _ v hv hstream => ?_
  refine (Leaves.writeCbPoint hv hstream _ _).bind fun _ v hv hstream => ?_
  exact (Leaves.tryTx hv hstream wout).bind fun _ v hv hstream =>
    Leaves.read hv hstream _ rin

/-- **`_send_request`** adds one request with the key of its sequence
number. -/
theorem sendRequest_leaves {s : Conn MemcCmd (State K) R C} (h : s.WF)
    (hrecords : cfg.records ≠ 0) (low measure : Bool) (cb : RequestCB K)
    (stack : Nat → Nat → UInt8) (wout : List WriteRes)
    (rin : List ReadRes) :
    ∃ req, Keyed (keyOffset (chooseCmd low)) (valLen cfg (chooseCmd low))
        (keyFor cfg s.world.client.seqid) req ∧
      Leaves (s.view.stream ++ req)
        (sendRequest cfg clk low measure cb stack wout rin s) := by
  have hid : Sock.onWorld nextId s =
      .ok s.world.client.seqid (numbered s) := rfl
  have hwf : (numbered s).WF := ⟨h.rxCbs, h.rbuf, h.txCbs, h.wbuf⟩
  rw [sendRequest, bind_of_ok hid, chooseKey, if_neg hrecords,
    bind_of_ok (pure_apply _ _)]
  refine Leaves.puts (writeRequest_puts _ _ stack) (writeRequest_writes _ _ _)
    hwf rfl (Keyed.exists _ _ _) fun req t _ ht hstream => ?_
  have hstream : t.view.stream = s.view.stream ++ req := hstream
  rw [← hstream]
  exact submit_leaves ht _ measure _ _ wout rin

/-! ## Runs of the generator -/

/-- The requests with these commands have the keys from `seqid` on. -/
def Asks (cfg : Config) (seqid : UInt64) (cmds : List MemcCmd)
    (reqs : List (List UInt8)) : Prop :=
  ∀ (i : Nat) (req : List UInt8), reqs[i]? = some req →
    ∃ op, cmds[i]? = some op ∧ Keyed (keyOffset op) (valLen cfg op)
      (keyFor cfg (seqid + UInt64.ofNat i)) req

theorem Asks.append {seqid : UInt64} {cmds cmds' : List MemcCmd}
    {reqs reqs' : List (List UInt8)} (h : Asks cfg seqid cmds reqs)
    (hlen : reqs.length = cmds.length)
    (h' : Asks cfg (seqid + UInt64.ofNat reqs.length) cmds' reqs') :
    Asks cfg seqid (cmds ++ cmds') (reqs ++ reqs') := by
  intro i req hreq
  rcases Nat.lt_or_ge i reqs.length with hlt | hge
  · rw [List.getElem?_append_left hlt] at hreq
    rw [List.getElem?_append_left (by omega)]
    exact h i req hreq
  · rw [List.getElem?_append_right hge] at hreq
    obtain ⟨op, hop, hkeyed⟩ := h' _ _ hreq
    refine ⟨op, ?_, ?_⟩
    · rw [List.getElem?_append_right (by omega), ← hlen]
      exact hop
    · have hsum : seqid + UInt64.ofNat reqs.length +
          UInt64.ofNat (i - reqs.length) = seqid + UInt64.ofNat i := by
        rw [UInt64.add_assoc, ← UInt64.ofNat_add, Nat.add_sub_cancel' hge]
      rwa [hsum] at hkeyed

/-- **The pieces of a run** that was asked for these commands: one request for
each when the run returned, and no more than that when it threw. -/
structure Made (cfg : Config) (seqid : UInt64) (cmds : List MemcCmd)
    (reqs : List (List UInt8)) (returned : Bool) : Prop where
  asks : Asks cfg seqid cmds reqs
  length_le : reqs.length ≤ cmds.length
  length_eq : returned = true → reqs.length = cmds.length

/-- A completion callback of the client. -/
def Outer (cb : RequestCB (State K)) : Prop := ∃ f, cb = onClient f

/-- A connection whose next sequence number is `seqid`. -/
abbrev At (clk : Nat → Nat) (addr : Nat) (seqid : UInt64)
    (sent : List (Sent MemcCmd)) (s : Conn MemcCmd (State K) R C) : Prop :=
  Between addr (Reporting clk proto C addr Outer
    fun _ g => g.seqid = seqid) sent s

theorem at_carried (clk : Nat → Nat) (addr : Nat) (len : MemcCmd → Nat)
    (seqid : UInt64) : Carried (R := R) clk proto C addr len
      (fun _ cb => Outer (K := K) cb)
      (Reporting clk proto C addr Outer fun _ g => g.seqid = seqid) := by
  refine reporting_carried (by decide) addr len ?_
  rintro _ ⟨f, rfl⟩ past d g hg
  exact hg

variable {addr : Nat} {seqid : UInt64} {sent : List (Sent MemcCmd)}
  {s : Conn MemcCmd (State K) R C}

/-- **A call** uses the sequence numbers in order, and writes requests with
their keys. -/
theorem call_leaves (hrecords : cfg.records ≠ 0)
    (h : At clk addr seqid sent s) (c : Call K) :
    (∃ reqs, Leaves (s.view.stream ++ reqs.flatten) (c.call cfg clk s) ∧
      reqs.length = c.cmds.length ∧ Asks cfg seqid c.cmds reqs) ∧
    ∀ t, c.call cfg clk s = .ok () t → ∃ sent',
      At clk addr (seqid + UInt64.ofNat c.cmds.length) sent' t := by
  cases c with
  | send low measure cb stack wout rin =>
      constructor
      · obtain ⟨req, hkeyed, hleaves⟩ := sendRequest_leaves h.wf
          hrecords low measure cb stack wout rin
        have hseqid : s.world.client.seqid = seqid := h.holds.told
        refine ⟨[req], ?_, rfl, ?_⟩
        · rw [List.flatten_singleton]
          exact hleaves.bind fun _ t ht hstream => .ok ht hstream
        · intro i req' hreq
          obtain ⟨hi, rfl⟩ := List.getElem?_eq_some_iff.mp hreq
          obtain rfl : i = 0 := by simpa using hi
          refine ⟨_, rfl, ?_⟩
          rw [show seqid + UInt64.ofNat 0 = seqid from UInt64.add_zero _,
            ← hseqid]
          exact hkeyed
      · intro t hcall
        have hstart : At clk addr (seqid + 1) sent (numbered s) := by
          have hq := h.holds
          exact ⟨⟨⟨h.wf.rxCbs, h.wf.rbuf, h.wf.txCbs, h.wf.wbuf⟩, h.addr,
            ⟨hq.toLockstep.client _, hq.waits,
              congrArg (· + 1) hq.told⟩⟩, h.nread, h.npoint, h.live⟩
        rcases sendRequest_carried (at_carried clk addr (reqLen cfg) _)
            hstart low measure cb ⟨cb, rfl⟩ stack wout rin with
          ⟨n, t', hrun, ht'⟩ | ⟨e, t', hrun, -⟩
        · cases ((bind_of_ok hrun).trans rfl).symm.trans hcall
          exact ⟨_, ht'⟩
        · cases (bind_of_error hrun).symm.trans hcall
  | runIo events check rin wout =>
      constructor
      · refine ⟨[], ?_, rfl, fun i req hreq => by simp at hreq⟩
        rw [List.flatten_nil, List.append_nil]
        exact Leaves.runIo h.wf rfl events check rin wout
      · intro t hcall
        rcases runIo_kept (at_carried clk addr (reqLen cfg) seqid) h events
            check rin wout with ⟨t', hrun, ht'⟩ | ⟨e, t', hrun, -⟩
        · cases hrun.symm.trans hcall
          refine ⟨sent, ?_⟩
          rw [show seqid + UInt64.ofNat (Call.cmds
            (Call.runIo events check rin wout : Call K)).length = seqid from
            UInt64.add_zero _]
          exact ht'
        · cases hrun.symm.trans hcall

/-- **A run** writes requests with the keys from `seqid` on. -/
theorem run_leaves (hrecords : cfg.records ≠ 0) (addr : Nat)
    (rmem wmem : Nat → UInt8) (seqid : UInt64) (client : K)
    (calls : List (Call K)) :
    ∃ reqs, Leaves reqs.flatten (runAll (Call.call cfg clk) calls
        (start addr rmem wmem seqid client :
          Conn MemcCmd (State K) R C)) ∧
      Made cfg seqid (calls.flatMap Call.cmds) reqs
        (returned (runAll (Call.call cfg clk) calls
          (start addr rmem wmem seqid client :
            Conn MemcCmd (State K) R C))) := by
  have hpast : ∀ {past : List (Call K)} {t : Conn MemcCmd (State K) R C},
      runAll (Call.call cfg clk) past
        (start addr rmem wmem seqid client) = .ok () t →
      ∃ sent reqs, At clk addr (seqid + UInt64.ofNat reqs.length) sent t ∧
        t.view.stream = reqs.flatten ∧
        reqs.length = (past.flatMap Call.cmds).length ∧
        Asks cfg seqid (past.flatMap Call.cmds) reqs := by
    intro past t hrun
    refine runAll_invariant (P := fun past t => ∃ sent reqs,
      At clk addr (seqid + UInt64.ofNat reqs.length) sent t ∧
        t.view.stream = reqs.flatten ∧
        reqs.length = (past.flatMap Call.cmds).length ∧
        Asks cfg seqid (past.flatMap Call.cmds) reqs) ?_ past []
      ⟨[], [], ?_, rfl, rfl, fun i req hreq => by simp at hreq⟩ hrun
    · rintro past c u v ⟨sent, reqs, hu, hstream, hlen, hasks⟩ hcall
      obtain ⟨⟨new, hleaves, hnew, hasks'⟩, hnext⟩ :=
        call_leaves hrecords hu c
      obtain ⟨sent', hv⟩ := hnext v hcall
      rw [hcall] at hleaves
      obtain ⟨-, hstream'⟩ := hleaves
      refine ⟨sent', reqs ++ new, ?_, ?_, ?_, ?_⟩
      · rwa [List.length_append, hnew, UInt64.ofNat_add, ← UInt64.add_assoc]
      · rw [hstream', hstream, List.flatten_append]
      · rw [List.length_append, hlen, hnew, List.flatMap_append,
          List.length_append, List.flatMap_singleton]
      · rw [List.flatMap_append, List.flatMap_singleton]
        exact hasks.append hlen hasks'
    · refine ⟨⟨Sock.init_wf _ _ _ _, rfl, .init rmem wmem MemcCmd.get _ ?_⟩,
        rfl, rfl, ?_⟩
      · exact (UInt64.add_zero _).symm
      · intro op hop
        cases hop
  cases hrun : runAll (Call.call cfg clk) calls
      (start addr rmem wmem seqid client : Conn MemcCmd (State K) R C) with
  | ok _ t =>
      obtain ⟨sent, reqs, ht, hstream, hlen, hasks⟩ := hpast hrun
      exact ⟨reqs, .ok ht.wf hstream, ⟨hasks, Nat.le_of_eq hlen,
        fun _ => hlen⟩⟩
  | error e t =>
      obtain ⟨past, c, rest, u, rfl, hok, hthrow⟩ := runAll_error calls hrun
      obtain ⟨sent, reqs, hu, hstream, hlen, hasks⟩ := hpast hok
      obtain ⟨⟨new, hleaves, hnew, hasks'⟩, -⟩ := call_leaves hrecords hu c
      rw [hthrow, hstream] at hleaves
      rw [List.flatMap_append, List.flatMap_cons, ← List.append_assoc]
      refine ⟨reqs ++ new, ?_, ⟨?_, ?_, nofun⟩⟩
      · rw [List.flatten_append]
        exact hleaves
      · intro i req hreq
        obtain ⟨op, hop, hkeyed⟩ := hasks.append hlen hasks' i req hreq
        refine ⟨op, ?_, hkeyed⟩
        rw [List.getElem?_append_left (List.getElem?_eq_some_iff.mp hop).1]
        exact hop
      · simp only [List.length_append]
        omega

end Requests

end Memcache

/-! ## The sets of the loader -/

namespace MemcacheLoad

variable {R C : ℕ+} {cfg : Config}

/-- The bytes of a set in front of its key. -/
def keyOffset : Nat := MemcHeader.size + 8

/-- What a set adds behind its header. -/
theorem writeSetExtras_puts (seqid : UInt64) (stack : Nat → Nat → UInt8) :
    Puts (Keyed 8 cfg.valsize (nextKey cfg seqid))
      (do
        Sock.writeEmplace memcExtrasSet (stack 1)
        Sock.write (nextKey cfg seqid)
        Sock.write (nextVal cfg) : EStateM Exn (Sock Loader R C) Unit) := by
  have hval : (nextVal cfg).length = cfg.valsize := List.length_replicate
  refine (Sock.writeEmplace_appends memcExtrasSet (stack 1)).keyed
    (puts_keyed _ ?_)
  rw [← hval]
  exact Sock.write_appends _

theorem writeSet_puts (op : MemcCmd) (seqid : UInt64)
    (stack : Nat → Nat → UInt8) :
    Puts (Keyed keyOffset cfg.valsize (nextKey cfg seqid))
      (writeSet cfg op seqid stack : EStateM Exn (Sock Loader R C) Unit) :=
  (Memcache.writeHeader_appends _ _).keyed (writeSetExtras_puts seqid stack)

/-- `send_request` once the bytes of the set were written. -/
theorem sent_leaves {s : Sock Loader R C} (h : s.WF) (quiet : Bool)
    (wout : List WriteRes) (rin : List ReadRes) :
    Leaves s.view.stream
      ((do
        Sock.tryTx wout
        if quiet then pure () else Sock.read (awaitsSet cfg) rin :
        EStateM Exn (Sock Loader R C) Unit) s) := by
  refine (Leaves.tryTx h rfl wout).bind fun _ u hu hstream => ?_
  cases quiet with
  | true => exact .ok hu hstream
  | false => exact Leaves.read hu hstream _ rin

/-- **`send_request`** adds one set with the key of its sequence number. -/
theorem sendRequest_leaves {s : Sock Loader R C} (h : s.WF) (seqid : UInt64)
    (quiet : Bool) (stack : Nat → Nat → UInt8) (wout : List WriteRes)
    (rin : List ReadRes) :
    ∃ set, Keyed keyOffset cfg.valsize (nextKey cfg seqid) set ∧
      Leaves (s.view.stream ++ set)
        (sendRequest cfg seqid quiet stack wout rin s) := by
  refine Leaves.puts (writeSet_puts _ seqid stack) (writeSet_writes _ _ _) h
    rfl (Keyed.exists _ _ _) fun set t _ ht hstream => ?_
  rw [← hstream]
  exact sent_leaves ht quiet wout rin

/-- The sets with these numbers have their keys. -/
def Stores (cfg : Config) (ids : List UInt64) (sets : List (List UInt8)) :
    Prop :=
  List.Forall₂ (fun id set =>
    Keyed keyOffset cfg.valsize (nextKey cfg id) set) ids sets

theorem Stores.getSet {ids : List UInt64} {sets : List (List UInt8)}
    (h : Stores cfg ids sets) {j : Nat} {id : UInt64}
    (hid : ids[j]? = some id) : ∃ set, sets[j]? = some set ∧
      Keyed keyOffset cfg.valsize (nextKey cfg id) set := by
  obtain ⟨hlt, rfl⟩ := List.getElem?_eq_some_iff.mp hid
  have hlt' : j < sets.length := by
    rw [← h.length_eq]
    exact hlt
  exact ⟨sets[j], List.getElem?_eq_getElem hlt', h.get hlt hlt'⟩

/-- **A run** that returns has written the sets with the keys of its
numbers. -/
theorem run_leaves (addr : Nat) (rmem wmem : Nat → UInt8)
    (calls : List Call) {s : Sock Loader R C}
    (hrun : runAll (Call.call cfg) calls (start cfg addr rmem wmem) =
      .ok () s) :
    ∃ sets, s.view.stream = sets.flatten ∧
      Stores cfg (calls.flatMap Call.ids) sets := by
  refine (runAll_invariant (P := fun past t => t.WF ∧ ∃ sets,
    t.view.stream = sets.flatten ∧
      Stores cfg (past.flatMap Call.ids) sets) ?_ calls []
    ⟨Sock.init_wf _ _ _ _, [], rfl, .nil⟩ hrun).2
  rintro past (⟨seqid, quiet, stack, wout, rin⟩ |
    ⟨events, check, rin, wout⟩) t u ⟨ht, sets, hstream, hstores⟩ hcall
  · obtain ⟨set, hkeyed, hleaves⟩ := sendRequest_leaves ht seqid
      quiet stack wout rin
    rw [show sendRequest cfg seqid quiet stack wout rin t = .ok () u from
      hcall, hstream] at hleaves
    obtain ⟨hwf, hstream'⟩ := hleaves
    refine ⟨hwf, sets ++ [set], ?_, ?_⟩
    · rw [hstream', List.flatten_append, List.flatten_singleton]
    · rw [List.flatMap_append, List.flatMap_singleton]
      exact List.rel_append hstores (.cons hkeyed .nil)
  · have hleaves := Leaves.runIo ht hstream events check rin wout
    rw [show Sock.runIo events check rin wout t = .ok () u from hcall]
      at hleaves
    obtain ⟨hwf, hstream'⟩ := hleaves
    refine ⟨hwf, sets, hstream', ?_⟩
    rw [List.flatMap_append, List.flatMap_singleton]
    exact (List.append_nil _).symm ▸ hstores

end MemcacheLoad

/-! ## Both -/

/-- The numbers of the records. -/
def recordIds (records : Nat) : List UInt64 :=
  (List.range records).map fun i => UInt64.ofNat (i + 1)

/-- **The loader and the generator agree on keys.**  What the generator writes
is one request after another: the `i`-th has the lengths of the `i`-th command
and the key that `choose_key` finds in `_keys` for its sequence number.  What
the loader writes is one set after another, each with the key of its number;
the set for the number of that record has that key, byte for byte, and there is
one when the loader sent all records. -/
theorem keys_agree {cfg : Memcache.Config} {lcfg : MemcacheLoad.Config}
    (hfits : cfg.Fits) (hsame : lcfg.keysize = cfg.keysize)
    {room : Nat} {junk keys : Nat → UInt8}
    (hkeys : Memcache.makeKeys cfg room junk = .ok keys)
    {K : Type} {R C R' C' : ℕ+} (clk : Nat → Nat) (addr addr' : Nat)
    (rmem wmem rmem' wmem' : Nat → UInt8) (seqid : UInt64) (client : K)
    (calls : List (Memcache.Call K)) (lcalls : List MemcacheLoad.Call)
    {loaded : Sock MemcacheLoad.Loader R' C'}
    (hload : runAll (MemcacheLoad.Call.call lcfg) lcalls
      (MemcacheLoad.start lcfg addr' rmem' wmem') = .ok () loaded) :
    ∃ reqs sets : List (List UInt8),
      Leaves reqs.flatten (runAll (Memcache.Call.call cfg clk) calls
        (Memcache.start addr rmem wmem seqid client :
          Conn MemcCmd (Memcache.State K) R C)) ∧
      reqs.length ≤ (calls.flatMap Memcache.Call.cmds).length ∧
      (returned (runAll (Memcache.Call.call cfg clk) calls
        (Memcache.start addr rmem wmem seqid client :
          Conn MemcCmd (Memcache.State K) R C)) = true →
        reqs.length = (calls.flatMap Memcache.Call.cmds).length) ∧
      loaded.view.stream = sets.flatten ∧
      List.Forall₂ (fun id set => Keyed MemcacheLoad.keyOffset lcfg.valsize
        (MemcacheLoad.nextKey lcfg id) set)
        (lcalls.flatMap MemcacheLoad.Call.ids) sets ∧
      ∀ (i : Nat) req, reqs[i]? = some req → ∃ op id,
        (calls.flatMap Memcache.Call.cmds)[i]? = some op ∧
        id = seqid + UInt64.ofNat i ∧
        Keyed (Memcache.keyOffset op) (Memcache.valLen cfg op)
          (Memcache.keyIn cfg keys id) req ∧
        (∀ (j : Nat), (lcalls.flatMap MemcacheLoad.Call.ids)[j]? =
            some (UInt64.ofNat (id.toNat % cfg.records + 1)) →
          ∃ set, sets[j]? = some set ∧
            Keyed MemcacheLoad.keyOffset lcfg.valsize
              (Memcache.keyIn cfg keys id) set) ∧
        (lcalls.flatMap MemcacheLoad.Call.ids = recordIds cfg.records →
          ∃ set ∈ sets, Keyed MemcacheLoad.keyOffset lcfg.valsize
            (Memcache.keyIn cfg keys id) set) := by
  obtain ⟨reqs, hreqs, hmade⟩ := Memcache.run_leaves (R := R) (C := C)
    hfits.records_ne addr rmem wmem seqid client calls
  obtain ⟨sets, hsets, hstores⟩ :=
    MemcacheLoad.run_leaves addr' rmem' wmem' lcalls hload
  refine ⟨reqs, sets, hreqs, hmade.length_le, hmade.length_eq, hsets, hstores,
    fun i req hreq => ?_⟩
  obtain ⟨op, hop, hkeyed⟩ := hmade.asks i req hreq
  have hkey := Memcache.keyIn_eq hfits hkeys (seqid + UInt64.ofNat i)
  have hset : ∀ j : Nat, (lcalls.flatMap MemcacheLoad.Call.ids)[j]? =
      some (UInt64.ofNat ((seqid + UInt64.ofNat i).toNat % cfg.records + 1)) →
      ∃ set, sets[j]? = some set ∧
        Keyed MemcacheLoad.keyOffset lcfg.valsize
          (Memcache.keyIn cfg keys (seqid + UInt64.ofNat i)) set := by
    intro j hj
    obtain ⟨set, hset, hstored⟩ := hstores.getSet hj
    refine ⟨set, hset, ?_⟩
    rwa [MemcacheLoad.nextKey, hsame, hfits.recordId_eq, ← hkey] at hstored
  refine ⟨op, _, hop, rfl, ?_, hset, fun hall => ?_⟩
  · rwa [hkey, ← hfits.keyFor_eq]
  · have hslot := hfits.slot_lt (seqid + UInt64.ofNat i)
    obtain ⟨set, hset, hstored⟩ := hset _ (by
      rw [hall, recordIds, List.getElem?_map, List.getElem?_range hslot]
      rfl)
    exact ⟨set, List.mem_of_getElem? hset, hstored⟩

/-- Three records with keys of two digits. -/
private def threeRecords : Memcache.Config := ⟨3, 2, 1⟩

private def threeSets : MemcacheLoad.Config := ⟨3, 2, 1, 1, 4, 2⟩

/-- The loader sends the three records. -/
private def loadThree : List MemcacheLoad.Call :=
  (recordIds 3).map fun id =>
    .send id false (fun _ _ => 0) [] []

/-- The generator asks twice, and its sequence numbers start over. -/
private def twoGets : List (Memcache.Call Unit) :=
  List.replicate 2
    (.send false true (fun _ _ _ _ _ k => k) (fun _ _ => 0) [] [])

theorem keys_agree_threeRecords : ∃ keys, ∃ reqs sets : List (List UInt8),
    ∃ loaded : Sock MemcacheLoad.Loader 4 256,
    Memcache.makeKeys threeRecords 9 (fun _ => 0) = .ok keys ∧
    loaded.view.stream = sets.flatten ∧ sets.length = 3 ∧
    Leaves reqs.flatten (runAll (Memcache.Call.call threeRecords id) twoGets
      (Memcache.start 0 (fun _ => 0) (fun _ => 0) 18446744073709551615 () :
        Conn MemcCmd (Memcache.State Unit) maxOutstandingReqs charbufSize)) ∧
    reqs.length = 2 ∧
    ∀ (i : Nat) req, reqs[i]? = some req → ∃ op, ∃ set ∈ sets,
      Keyed (Memcache.keyOffset op) (Memcache.valLen threeRecords op)
        (Memcache.keyIn threeRecords keys
          (18446744073709551615 + UInt64.ofNat i)) req ∧
      Keyed MemcacheLoad.keyOffset 1 (Memcache.keyIn threeRecords keys
        (18446744073709551615 + UInt64.ofNat i)) set := by
  have hfits : threeRecords.Fits := ⟨by decide, by decide⟩
  obtain ⟨keys, hkeys⟩ := Memcache.makeKeys_returns hfits
    (show threeRecords.records * (threeRecords.keysize + 1) ≤ 9 by decide)
    (by decide) fun _ => 0
  have hload := eq_ok_of_returned (r := runAll
    (MemcacheLoad.Call.call threeSets) loadThree
    (MemcacheLoad.start threeSets 0 (fun _ => 0) (fun _ => 0) :
      Sock MemcacheLoad.Loader 4 256))
    (by decide +kernel)
  obtain ⟨reqs, sets, hreqs, -, hcount, hsets, hstores, hall⟩ :=
    keys_agree hfits rfl hkeys id 0 0 (fun _ => 0) (fun _ => 0) (fun _ => 0)
      (fun _ => 0) _ () twoGets loadThree hload
  refine ⟨keys, reqs, sets, _, hkeys, hsets, hstores.length_eq.symm, hreqs,
    hcount (by decide +kernel), fun i req hreq => ?_⟩
  obtain ⟨op, _, -, rfl, hkeyed, -, hstored⟩ := hall i req hreq
  obtain ⟨set, hset, hsame⟩ := hstored rfl
  exact ⟨op, set, hset, hkeyed, hsame⟩

end Mutated.Ports
