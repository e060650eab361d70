import Mutated.Ports.MemcacheRequests
import Mutated.Ports.MemcacheWindow
import Mutated.Ports.SockPlaces
import Mutated.Verified.Framing

/-!
# Requests as a server reads them

A server reads the bytes that the kernel accepted.  `readRequest` takes one
request off the front of them: a header, and as many bytes behind it as the
header counts, split into extras, key and value.  It looks at the magic, the
command and the three lengths.

`run_sets`: whatever the kernel does, a server reads the sets of the loader
one after another, each with its key and value, as long as no set has its
header or its extras cut by the end of the ring.
-/

namespace Mutated.Ports

open Mutated.Verified.Circular
open Mutated.Verified.Endian
open Mutated.Verified.Exec
open Mutated.Verified.Framing
open Mutated.Verified.Groups
open Relation (ReflTransGen)

/-! ## Requests -/

/-- The command with a code. -/
def MemcCmd.ofCode (code : UInt8) : Option MemcCmd :=
  if code = MemcCmd.get.code then some .get
  else if code = MemcCmd.set.code then some .set
  else if code = MemcCmd.setq.code then some .setq
  else none

theorem MemcCmd.ofCode_eq {code : UInt8} {c : MemcCmd} :
    MemcCmd.ofCode code = some c ↔ code = c.code := by
  constructor
  · intro h
    unfold MemcCmd.ofCode at h
    split at h
    · cases h
      assumption
    · split at h
      · cases h
        assumption
      · split at h
        · cases h
          assumption
        · cases h
  · rintro rfl
    cases c <;> rfl

/-- `MemcPacket`: a request as its receiver sees it. -/
structure MemcPacket where
  cmd : MemcCmd
  extras : List UInt8
  key : List UInt8
  value : List UInt8
  deriving DecidableEq, Repr

namespace MemcPacket

/-- The bytes behind the header. -/
def body (r : MemcPacket) : List UInt8 := r.extras ++ (r.key ++ r.value)

theorem length_body (r : MemcPacket) :
    r.body.length = r.extras.length + r.key.length + r.value.length := by
  simp [body, Nat.add_assoc]

/-- `hdr` is a header that a receiver reads as the one of `r`. -/
structure Describes (hdr : List UInt8) (r : MemcPacket) : Prop where
  length : hdr.length = MemcHeader.size
  magic : hdr.getD 0 0 = MemcType.request.code
  cmd : hdr.getD 1 0 = r.cmd.code
  extralen : (hdr.getD 4 0).toNat = r.extras.length
  lens : MemcHeader.lens hdr = (r.key.length, r.body.length)

/-- The lengths fit into the header. -/
structure Fits (r : MemcPacket) : Prop where
  extras : r.extras.length < 2 ^ 8
  key : r.key.length < 2 ^ 16
  body : r.body.length < 2 ^ 32

/-- The header that the constructor makes for `r`. -/
def header (r : MemcPacket) : MemcHeader :=
  .make .request r.cmd (UInt8.ofNat r.extras.length)
    (UInt16.ofNat r.key.length) (UInt32.ofNat r.value.length)

/-- The request as it is sent. -/
def bytes (r : MemcPacket) : List UInt8 := r.header.bytes ++ r.body

theorem length_bytes (r : MemcPacket) :
    r.bytes.length = MemcHeader.size + r.body.length := by
  rw [bytes, List.length_append, MemcHeader.length_bytes]

theorem Fits.describes {r : MemcPacket} (h : r.Fits) :
    Describes r.header.bytes r := by
  have hextras : (UInt8.ofNat r.extras.length).toNat = r.extras.length :=
    Nat.mod_eq_of_lt h.extras
  have hkey : (UInt16.ofNat r.key.length).toNat = r.key.length :=
    Nat.mod_eq_of_lt h.key
  have hbody := h.body
  rw [length_body] at hbody
  have hvalue : (UInt32.ofNat r.value.length).toNat = r.value.length :=
    Nat.mod_eq_of_lt (by omega)
  refine ⟨MemcHeader.length_bytes _, rfl, rfl, hextras, ?_⟩
  rw [header, MemcHeader.lens_make_of_lt _ _
    (by rw [hextras, hkey, hvalue]; exact hbody), hextras, hkey, hvalue,
    length_body]

end MemcPacket

/-! ## Reading a request -/

/-- The request at the front of the bytes, when all of it is there. -/
def readRequest : Reader UInt8 MemcPacket := fun bytes =>
  let extralen := (bytes.getD 4 0).toNat
  let keylen := MemcHeader.keylenAt bytes
  let bodylen := MemcHeader.bodylenAt bytes
  let body := (bytes.drop MemcHeader.size).take bodylen
  if bytes.length < MemcHeader.size + bodylen ∨
      bytes.getD 0 0 ≠ MemcType.request.code ∨ bodylen < extralen + keylen then
    none
  else (MemcCmd.ofCode (bytes.getD 1 0)).map fun cmd =>
    (⟨cmd, body.take extralen, (body.drop extralen).take keylen,
      body.drop (extralen + keylen)⟩, bytes.drop (MemcHeader.size + bodylen))

/-- The first bytes of a header are there with anything behind it. -/
private theorem getD_header {hdr : List UInt8}
    (h : hdr.length = MemcHeader.size) (rest : List UInt8) {i : Nat}
    (hi : i < MemcHeader.size) :
    (hdr ++ rest).getD i 0 = hdr.getD i 0 := by
  rw [List.getD_eq_getElem?_getD, List.getD_eq_getElem?_getD,
    List.getElem?_append_left (by omega)]

/-- **What is read** is a header, and what it describes. -/
theorem readRequest_iff {xs rest : List UInt8} {r : MemcPacket} :
    readRequest xs = some (r, rest) ↔
      ∃ hdr, MemcPacket.Describes hdr r ∧ xs = hdr ++ (r.body ++ rest) := by
  constructor
  · intro h
    unfold readRequest at h
    simp only at h
    split at h
    · cases h
    · rename_i hgood
      simp only [not_or, Nat.not_lt, not_not] at hgood
      obtain ⟨hlen, hmagic, hcount⟩ := hgood
      obtain ⟨cmd, hcmd, heq⟩ := Option.map_eq_some_iff.mp h
      rw [MemcCmd.ofCode_eq] at hcmd
      cases heq
      set body := (xs.drop MemcHeader.size).take (MemcHeader.bodylenAt xs)
        with hbody
      have hparts : body.take (xs.getD 4 0).toNat ++
          ((body.drop (xs.getD 4 0).toNat).take (MemcHeader.keylenAt xs) ++
            body.drop ((xs.getD 4 0).toNat + MemcHeader.keylenAt xs)) =
          body := by
        rw [← List.drop_drop, List.take_append_drop, List.take_append_drop]
      have hbodylen : body.length = MemcHeader.bodylenAt xs := by
        rw [hbody, List.length_take, List.length_drop]
        omega
      have hget : ∀ i, i < MemcHeader.size →
          (xs.take MemcHeader.size).getD i 0 = xs.getD i 0 := by
        intro i hi
        rw [List.getD_eq_getElem?_getD, List.getD_eq_getElem?_getD,
          List.getElem?_take_of_lt hi]
      refine ⟨xs.take MemcHeader.size, ⟨?_, ?_, ?_, ?_, ?_⟩, ?_⟩
      · rw [List.length_take]
        omega
      · rw [hget 0 (by decide), hmagic]
      · rw [hget 1 (by decide), hcmd]
      · rw [hget 4 (by decide), List.length_take, hbodylen]
        omega
      · rw [MemcHeader.lens_take (by decide), MemcHeader.lens, Prod.mk.injEq,
          MemcPacket.body, hparts, List.length_take, List.length_drop, hbodylen]
        exact ⟨by omega, rfl⟩
      · rw [MemcPacket.body, hparts, ← List.drop_drop, hbody,
          List.take_append_drop, List.take_append_drop]
  · rintro ⟨hdr, hdesc, rfl⟩
    have hlens := MemcHeader.lens_append hdesc.length (r.body ++ rest)
    rw [hdesc.lens, MemcHeader.lens, Prod.mk.injEq] at hlens
    have hget := fun i hi =>
      getD_header hdesc.length (r.body ++ rest) (i := i) hi
    have hbody := r.length_body
    have hsize := hdesc.length
    have hrest : (hdr ++ (r.body ++ rest)).drop
        (MemcHeader.size + r.body.length) = rest := by
      rw [← List.drop_drop, List.drop_left' hsize, List.drop_left' rfl]
    have hextras : r.body.take r.extras.length = r.extras :=
      List.take_left' rfl
    have hkey : (r.body.drop r.extras.length).take r.key.length = r.key := by
      rw [MemcPacket.body, List.drop_left' rfl, List.take_left' rfl]
    have hvalue : r.body.drop (r.extras.length + r.key.length) = r.value := by
      rw [← List.drop_drop, MemcPacket.body, List.drop_left' rfl,
        List.drop_left' rfl]
    unfold readRequest
    simp only [hlens.1, hlens.2, hget 0 (by decide), hget 1 (by decide),
      hget 4 (by decide), hdesc.magic, hdesc.cmd, hdesc.extralen,
      List.drop_left' hsize, List.take_left' (rfl : r.body.length = _),
      hrest, hextras, hkey, hvalue]
    rw [if_neg, MemcCmd.ofCode_eq.mpr rfl]
    · rfl
    · rintro (hshort | hmagic | hcount)
      · simp only [List.length_append] at hshort
        omega
      · exact hmagic rfl
      · omega

/-- **A server may read its requests in pieces.** -/
theorem readRequest_lawful : Lawful readRequest where
  shorter := by
    intro xs rest r h
    obtain ⟨hdr, hdesc, rfl⟩ := readRequest_iff.mp h
    have hsize : hdr.length = 24 := hdesc.length
    simp only [List.length_append]
    omega
  stable := by
    intro xs rest r h more
    obtain ⟨hdr, hdesc, rfl⟩ := readRequest_iff.mp h
    exact readRequest_iff.mpr ⟨hdr, hdesc, by simp only [List.append_assoc]⟩

/-- **Round trip.** -/
theorem MemcPacket.Fits.encodes {r : MemcPacket} (h : r.Fits) :
    Encodes readRequest r r.bytes :=
  readRequest_iff.mpr ⟨_, h.describes, by rw [List.append_nil]; rfl⟩

/-! ## The sets of the loader -/

/-- The ring cuts neither the header nor the extras of a set whose first byte
goes to slot `tail`. -/
def WholeSet (C tail : Nat) : Prop :=
  tail + MemcHeader.size ≤ C ∧
    (tail + MemcHeader.size) % C + memcExtrasSet.length ≤ C

instance (C tail : Nat) : Decidable (WholeSet C tail) :=
  inferInstanceAs (Decidable (_ ∧ _))

/-- A set that does not reach the end of the ring. -/
theorem WholeSet.of_le {C tail : Nat}
    (h : tail + (MemcHeader.size + memcExtrasSet.length) ≤ C) :
    WholeSet C tail := by
  have hextras : memcExtrasSet.length = 8 := rfl
  refine ⟨by omega, ?_⟩
  rw [Nat.mod_eq_of_lt (by omega)]
  omega

namespace MemcacheLoad

variable {R C : ℕ+} {cfg : Config}

/-- The set with the number `id`. -/
def setOf (cfg : Config) (op : MemcCmd) (id : UInt64) : MemcPacket :=
  ⟨op, memcExtrasSet, nextKey cfg id, nextVal cfg⟩

/-- The `i`-th set: a loud one closes a group. -/
def setAt (cfg : Config) (i : Nat) : MemcPacket :=
  setOf cfg (if Closes cfg.notify.toNat cfg.toload.toNat i then .set
    else .setq) (cfg.startid + UInt64.ofNat i)

/-- The first `n` sets. -/
def sets (cfg : Config) (n : Nat) : List MemcPacket :=
  (List.range n).map (setAt cfg)

/-- The sizes fit into the header. -/
structure Config.Framed (cfg : Config) : Prop where
  key : cfg.keysize < 2 ^ 16
  body : 8 + cfg.keysize + cfg.valsize < 2 ^ 32

theorem length_setOf (op : MemcCmd) (id : UInt64) :
    (setOf cfg op id).bytes.length = setSize cfg := by
  have hkey : (nextKey cfg id).length = cfg.keysize := length_formatKey _ _
  have hval : (nextVal cfg).length = cfg.valsize := List.length_replicate
  simp only [MemcPacket.length_bytes, MemcPacket.length_body, setOf, hkey,
    hval, setSize, show memcExtrasSet.length = 8 from rfl]
  omega

theorem Config.Framed.fits (h : cfg.Framed) (op : MemcCmd) (id : UInt64) :
    (setOf cfg op id).Fits := by
  have hkey : (nextKey cfg id).length = cfg.keysize := length_formatKey _ _
  have hval : (nextVal cfg).length = cfg.valsize := List.length_replicate
  refine ⟨show memcExtrasSet.length < 2 ^ 8 by decide, ?_, ?_⟩
  · rw [setOf, hkey]
    exact h.key
  · simp only [MemcPacket.length_body, setOf, hkey, hval]
    exact h.body

theorem sets_succ (cfg : Config) (n : Nat) :
    sets cfg (n + 1) = sets cfg n ++ [setAt cfg n] := by
  simp [sets, List.range_succ]

theorem sets_prefix (cfg : Config) {m n : Nat} (h : m ≤ n) :
    sets cfg m <+: sets cfg n := by
  induction n, h using Nat.le_induction with
  | base => exact List.prefix_refl _
  | succ n _ ih =>
      rw [sets_succ]
      exact ih.trans (List.prefix_append ..)

/-- The bytes of the first `n` sets. -/
def setBytes (cfg : Config) (n : Nat) : List UInt8 :=
  ((sets cfg n).map MemcPacket.bytes).flatten

theorem setBytes_succ (cfg : Config) (n : Nat) :
    setBytes cfg (n + 1) = setBytes cfg n ++ (setAt cfg n).bytes := by
  simp [setBytes, sets_succ]

theorem length_setBytes (cfg : Config) (n : Nat) :
    (setBytes cfg n).length = n * setSize cfg := by
  induction n with
  | zero => simp [setBytes, sets]
  | succ n ih =>
      rw [setBytes_succ, List.length_append, ih, setAt, length_setOf,
        Nat.succ_mul]

/-- **A server reads the sets** off their bytes. -/
theorem Config.Framed.encodes (h : cfg.Framed) (n : Nat) :
    List.Forall₂ (Encodes readRequest) (sets cfg n)
      ((sets cfg n).map MemcPacket.bytes) := by
  rw [List.forall₂_map_right_iff, List.forall₂_same]
  intro r hr
  obtain ⟨i, -, rfl⟩ := List.mem_map.mp hr
  exact (h.fits _ _).encodes

/-- **What a set adds** at a slot where the ring does not cut it. -/
theorem writeSet_lays (op : MemcCmd) (seqid : UInt64)
    (stack : Nat → Nat → UInt8) :
    Lays (fun tail bytes => WholeSet C tail →
      bytes = (setOf cfg op seqid).bytes)
      (writeSet cfg op seqid stack : EStateM Exn (Sock Loader R C) Unit) := by
  have hkey : (nextKey cfg seqid).length = cfg.keysize := length_formatKey _ _
  have hval : (nextVal cfg).length = cfg.valsize := List.length_replicate
  refine ((Sock.writeEmplace_lays _ _).bind ((Sock.writeEmplace_lays _ _).bind
    ((Sock.write_lays _).bind (Sock.write_lays _)))).mono ?_
  rintro tail _ - ⟨_, _, rfl, rfl, _, _, rfl, rfl, _, _, rfl, rfl, rfl⟩
    ⟨hheader, hextras⟩
  rw [Sock.emplaced_whole (by rw [MemcHeader.length_bytes]; exact hheader),
    MemcHeader.length_bytes, Sock.emplaced_whole hextras, MemcPacket.bytes,
    MemcPacket.header, setOf, hkey, hval]
  rfl

/-- What is left of `send_request` keeps the place. -/
private theorem sent_placed {s s' : Sock Loader R C} (h : Placed s)
    {quiet : Bool} {wout : List WriteRes} {rin : List ReadRes}
    (hrun : (do
      Sock.tryTx wout
      if quiet then pure () else Sock.read (awaitsSet cfg) rin :
      EStateM Exn (Sock Loader R C) Unit) s = .ok () s') : Placed s' := by
  obtain ⟨⟨⟩, t, htry, hread⟩ := bind_eq_ok.mp hrun
  have ht := (h.tryTx htry).1
  cases quiet with
  | true =>
      cases hread
      exact ht
  | false => exact (ht.read hread).1

/-- **`send_request`** adds one set to the bytes. -/
theorem sendRequest_delivers (cfg : Config) {s : Sock Loader R C} (h : Placed s)
    (hwhole : WholeSet C (s.view.stream.length % C)) (seqid : UInt64)
    (quiet : Bool) (stack : Nat → Nat → UInt8) (wout : List WriteRes)
    (rin : List ReadRes) :
    Leaves (s.view.stream ++
        (setOf cfg (if quiet then .setq else .set) seqid).bytes)
      (sendRequest cfg seqid quiet stack wout rin s) ∧
    ∀ s', sendRequest cfg seqid quiet stack wout rin s = .ok () s' →
      Placed s' := by
  cases hwrite : writeSet cfg (if quiet then .setq else .set) seqid stack s with
  | ok _ t =>
      obtain ⟨ht, bytes, hbytes, hstream⟩ :=
        h.lays (writeSet_lays _ seqid stack) hwrite
      rw [hbytes hwhole] at hstream
      rw [sendRequest, bind_of_ok hwrite, ← hstream]
      exact ⟨sent_leaves ht.wf quiet wout rin,
        fun s' hrun => sent_placed ht hrun⟩
  | error e t =>
      have htrace : t.trace = s.trace := congrArg (·.2.2.2.1)
        ((writeSet_writes _ seqid stack).quiet.of_error hwrite)
      rw [sendRequest, bind_of_error hwrite]
      refine ⟨.error ?_, fun s' hrun => by cases hrun⟩
      rw [htrace]
      exact (List.prefix_append _ s.view.wbuf).trans (List.prefix_append ..)

/-! ## Runs of the loader -/

/-- The bytes of the loader are its first `n` sets. -/
structure Delivers (cfg : Config) (n : Nat) (s : Sock Loader R C) : Prop where
  placed : Placed s
  stream : s.view.stream = setBytes cfg n

namespace Delivers

variable {n : Nat} {s s' : Sock Loader R C}

theorem start (addr : Nat) (rmem wmem : Nat → UInt8) :
    Delivers cfg 0 (start cfg addr rmem wmem : Sock Loader R C) :=
  ⟨.init _ _ _ _, rfl⟩

/-- **A turn** adds the next set. -/
theorem turn (h : Delivers cfg n s) {addr : Nat} (hn : Progress cfg addr n s)
    (hleft : n < cfg.toload.toNat)
    (hwhole : WholeSet C (n * setSize cfg % C)) (stack : Nat → Nat → UInt8)
    (wout : List WriteRes) (rin : List ReadRes) :
    Leaves (setBytes cfg (n + 1)) (turn cfg stack wout rin s) ∧
      ∀ s', turn cfg stack wout rin s = .ok () s' →
        Delivers cfg (n + 1) s' := by
  have hplaced : Placed (numbered s) :=
    ⟨⟨h.placed.wf.rxCbs, h.placed.wf.rbuf, h.placed.wf.txCbs,
      h.placed.wf.wbuf⟩, h.placed.tail⟩
  have hstream : (numbered s).view.stream = setBytes cfg n := h.stream
  have hset : setOf cfg (if (!decide ((s.world.sent + 1) % cfg.notify = 0 ∨
      s.world.sent = cfg.toload - 1)) = true then .setq else .set)
      s.world.seqid = setAt cfg n := by
    have hloud := hn.loud_iff hleft
    have hseqid : s.world.seqid = cfg.startid + UInt64.ofNat n := by
      rw [hn.world_eq]
      rfl
    rw [setAt, hseqid]
    by_cases hcloses : Closes cfg.notify.toNat cfg.toload.toNat n
    · rw [if_pos hcloses, decide_eq_true (hloud.mpr hcloses)]
      rfl
    · rw [if_neg hcloses, decide_eq_false (mt hloud.mp hcloses)]
      rfl
  obtain ⟨hleaves, hok⟩ := sendRequest_delivers cfg hplaced
    (by rw [hstream, length_setBytes]; exact hwhole) s.world.seqid
    (!decide ((s.world.sent + 1) % cfg.notify = 0 ∨
      s.world.sent = cfg.toload - 1)) stack wout rin
  rw [hset, hstream, ← setBytes_succ] at hleaves
  rw [turn_eq]
  cases hsend : sendRequest cfg s.world.seqid (!decide ((s.world.sent + 1) %
      cfg.notify = 0 ∨ s.world.sent = cfg.toload - 1)) stack wout rin
      (numbered s) with
  | ok _ t =>
      have ht := hok t hsend
      have hstream' := hleaves.stream_eq hsend
      have hwf : (counted t).WF :=
        ⟨ht.wf.rxCbs, ht.wf.rbuf, ht.wf.txCbs, ht.wf.wbuf⟩
      rw [bind_of_ok hsend]
      refine ⟨.ok hwf hstream', fun s' hcount => ?_⟩
      cases hcount
      exact ⟨⟨hwf, ht.tail⟩, hstream'⟩
  | error e t =>
      rw [hsend] at hleaves
      rw [bind_of_error hsend]
      refine ⟨?_, fun s' hrun => by cases hrun⟩
      cases hleaves with
      | error hstart => exact .error hstart

/-- Events add nothing. -/
theorem events_ok (h : Delivers cfg n s) {evs : List IoEvent}
    (hrun : runAll IoEvent.call evs s = .ok () s') : Delivers cfg n s' := by
  refine runAll_reaches (P := fun _ t => Delivers cfg n t) h ?_ hrun
  intro past ev rest t u _ _ ht hcall
  obtain ⟨hu, hstream⟩ := ht.placed.runIo hcall
  exact ⟨hu, hstream.trans ht.stream⟩

/-- An event that throws leaves the start of the bytes on the wire. -/
theorem events_error (h : Delivers cfg n s) {evs : List IoEvent} {e : Exn}
    (hrun : runAll IoEvent.call evs s = .error e s') :
    accepted s'.trace <+: setBytes cfg n := by
  obtain ⟨past, ev, rest, t, rfl, hpast, hthrow⟩ := runAll_error evs hrun
  have ht := h.events_ok hpast
  have hleaves := Leaves.runIo ht.placed.wf ht.stream ev.events ev.check
    ev.rin ev.wout
  rw [show Sock.runIo ev.events ev.check ev.rin ev.wout t = .error e s'
    from hthrow] at hleaves
  cases hleaves with
  | error hstart => exact hstart

end Delivers

/-- **The invariant of a run**: it goes on with the first `n` sets, or it
failed with the start of all sets on the wire. -/
inductive Delivering (cfg : Config) (r : Running R C) : Prop
  | going {addr n : Nat} (progress : Progress cfg addr n r.sock)
      (delivers : Delivers cfg n r.sock) (live : ∀ e, r.point ≠ .failed e)
  | failed {e : Exn} (point : r.point = .failed e)
      (start : accepted r.sock.trace <+: setBytes cfg cfg.toload.toNat)

theorem setBytes_start (cfg : Config) {m n : Nat} (h : m ≤ n) :
    setBytes cfg m <+: setBytes cfg n := by
  obtain ⟨more, hmore⟩ := sets_prefix cfg h
  rw [setBytes, setBytes, ← hmore, List.map_append, List.flatten_append]
  exact List.prefix_append ..

/-- **Step lemma.** -/
theorem Delivering.step (hnotify : cfg.notify ≠ 0)
    (hwhole : ∀ i, i < cfg.toload.toNat →
      WholeSet C (i * setSize cfg % C))
    {r r' : Running R C} (h : Delivering cfg r) (hstep : Step cfg r r') :
    Delivering cfg r' := by
  cases h with
  | @going addr n hprogress hdelivers hlive =>
      cases hstep with
      | send stack wout rin hsends hrun =>
          have hleft := hprogress.sent_lt_iff.mp hsends.1
          exact .going (hprogress.turn_kept hnotify hsends hrun)
            ((hdelivers.turn hprogress hleft (hwhole n hleft) stack wout
              rin).2 _ hrun) nofun
      | full hfull => exact .going hprogress hdelivers nofun
      | finish hrecv => exact .going hprogress hdelivers nofun
      | block hrecv => exact .going hprogress hdelivers nofun
      | wake evs hrun =>
          exact .going (hprogress.events_kept hrun)
            (hdelivers.events_ok hrun) nofun
      | failSend stack wout rin hsends hrun =>
          have hleft := hprogress.sent_lt_iff.mp hsends.1
          have hleaves := (hdelivers.turn hprogress hleft (hwhole n hleft)
            stack wout rin).1
          rw [hrun] at hleaves
          cases hleaves with
          | error hstart =>
              exact .failed rfl (hstart.trans (setBytes_start cfg hleft))
      | failWake evs hrun =>
          exact .failed rfl ((hdelivers.events_error hrun).trans
            (setBytes_start cfg hprogress.sent_le))
  | failed hpoint hstart => cases hstep <;> cases hpoint

/-- **Run lemma.** -/
theorem Reachable.delivering (hnotify : cfg.notify ≠ 0)
    (hwhole : ∀ i, i < cfg.toload.toNat →
      WholeSet C (i * setSize cfg % C))
    {r : Running R C} (h : Reachable cfg r) : Delivering cfg r := by
  obtain ⟨addr, rmem, wmem, hsteps⟩ := h
  exact invariant_of_step (P := Delivering cfg)
    (fun _ _ hstep hr => hr.step hnotify hwhole hstep) hsteps
    (.going (.init rmem wmem) (.start addr rmem wmem) nofun)

/-- What a server reads of the bytes that the kernel accepted. -/
theorem Delivering.accepted_sets (hframed : cfg.Framed) {r : Running R C}
    (h : Delivering cfg r) :
    (messages readRequest (accepted r.sock.trace)).1 <+:
      sets cfg cfg.toload.toNat := by
  apply messages_of_prefix readRequest_lawful (hframed.encodes _)
  cases h with
  | @going addr n hprogress hdelivers hlive =>
      have hstart : accepted r.sock.trace <+: setBytes cfg n :=
        ⟨r.sock.view.wbuf, hdelivers.stream⟩
      exact hstart.trans (setBytes_start cfg hprogress.sent_le)
  | failed hpoint hstart => exact hstart

/-- **A server reads the sets.**  Of what the kernel accepted it reads the
first sets, in order; with the bytes that still wait it has read all that were
sent, and nothing else is there. -/
theorem run_sets (hnotify : cfg.notify ≠ 0) (hframed : cfg.Framed)
    (hwhole : ∀ i, i < cfg.toload.toNat →
      WholeSet C (i * setSize cfg % C))
    {r : Running R C} (h : Reachable cfg r) :
    (messages readRequest (accepted r.sock.trace)).1 <+:
        sets cfg cfg.toload.toNat ∧
      ((∀ e, r.point ≠ .failed e) →
        messages readRequest r.sock.view.stream =
          (sets cfg r.sock.world.sent.toNat, [])) := by
  have hdelivering := h.delivering hnotify hwhole
  refine ⟨hdelivering.accepted_sets hframed, fun hlive => ?_⟩
  cases hdelivering with
  | @going addr n hprogress hdelivers _ =>
      rw [hdelivers.stream, hprogress.sent_toNat]
      exact messages_flatten readRequest_lawful (hframed.encodes n)
  | failed hpoint hstart => exact absurd hpoint (hlive _)

/-- No set is cut when all of them fit into the ring, or when a number of sets
fills it. -/
theorem wholeSet_of {i : Nat} (hi : i < cfg.toload.toNat)
    (hfit : cfg.toload.toNat * setSize cfg ≤ C ∨ setSize cfg ∣ C) :
    WholeSet C (i * setSize cfg % C) := by
  have hextras : memcExtrasSet.length = 8 := rfl
  have hsize : MemcHeader.size + 8 ≤ setSize cfg := by
    rw [setSize]
    omega
  apply WholeSet.of_le
  rcases hfit with hall | ⟨k, hk⟩
  · have hnext := Nat.mul_le_mul_right (setSize cfg) (Nat.succ_le_of_lt hi)
    rw [Nat.succ_mul] at hnext
    have hmod := Nat.mod_le (i * setSize cfg) C
    omega
  · have hlap : i * setSize cfg % C = setSize cfg * (i % k) := by
      rw [hk, Nat.mul_comm, Nat.mul_mod_mul_left]
    have hpos : 0 < k := by
      rw [Nat.pos_iff_ne_zero]
      rintro rfl
      exact absurd hk C.ne_zero
    have hnext := Nat.mul_le_mul_left (setSize cfg)
      (Nat.succ_le_of_lt (Nat.mod_lt i hpos))
    rw [Nat.mul_succ, ← hk] at hnext
    rw [hlap]
    omega

/-- Two keys, of which one set fills the ring. -/
private def twoKeys : Config := ⟨2, 1, 1, 1, 1, 1⟩

private def firstSent {R C : ℕ+} : Sock Loader R C :=
  after (turn twoKeys (fun _ _ => 0) [] []
    (start twoKeys 0 (fun _ => 0) (fun _ => 0)))

/-- The connect finishes, the set is sent, and the response arrives. -/
private def setAnswered : List IoEvent :=
  [⟨EPOLLOUT, .ok, [], [.accepted 34]⟩,
    ⟨EPOLLIN, .ok, [.data 0x81 (List.replicate 23 0), .error EAGAIN], []⟩]

private def firstAnswered {R C : ℕ+} : Sock Loader R C :=
  after (runAll IoEvent.call setAnswered firstSent)

/-- The second set goes where the first one was. -/
theorem run_sets_twoKeys : ∃ r : Running 2 34, Reachable twoKeys r ∧
    messages readRequest r.sock.view.stream =
      (sets twoKeys r.sock.world.sent.toNat, []) ∧
    r.sock.world.sent = 2 := by
  have hsend := eq_ok_of_returned (r := turn twoKeys (fun _ _ => 0) [] []
    (start twoKeys 0 (fun _ => 0) (fun _ => 0) : Sock Loader 2 34))
    (by decide +kernel)
  have hwake := eq_ok_of_returned
    (r := runAll IoEvent.call setAnswered (firstSent : Sock Loader 2 34))
    (by decide +kernel)
  have hagain := eq_ok_of_returned (r := turn twoKeys (fun _ _ => 0)
    [.accepted 34] [] (firstAnswered : Sock Loader 2 34)) (by decide +kernel)
  have hreach : Reachable twoKeys ⟨.sending, _⟩ :=
    ⟨0, fun _ => 0, fun _ => 0, .head (.send _ _ _ (by decide) hsend)
      (.head (.full (by decide +kernel)) (.head (.block (by decide +kernel))
        (.head (.wake _ hwake)
          (.single (.send _ _ _ (by decide +kernel) hagain)))))⟩
  refine ⟨_, hreach, ?_, by decide +kernel⟩
  exact (run_sets (by decide) ⟨by decide, by decide⟩
    (fun i hi => wholeSet_of hi (.inr (by decide))) hreach).2 nofun

end MemcacheLoad

end Mutated.Ports
