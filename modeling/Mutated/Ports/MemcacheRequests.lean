import Mutated.Ports.MemcacheCodec
import Mutated.Ports.MemcacheKeys
import Mutated.Ports.MemcachePrompt

/-!
# Request framing

The header of a request counts the bytes of the key (`keylen`) and all bytes
behind the header (`bodylen`).  The constructor takes both sizes as they fit
into 16 and 32 bits.

* The generator writes as many bytes of the key as `keylen` says; the loader
  writes all of them.
* No value that fits into `wbuf_` is too long for `bodylen`.
* A header that the end of the ring cuts before its two lengths is added with
  whatever lies behind it on the stack (`Spared`).

## Main results

`requests_counted` says exactly which requests their own header describes.
-/

namespace Mutated.Ports

open Mutated.Verified.Circular
open Mutated.Verified.Endian
open Mutated.Verified.Exec

/-! ## The lengths in a header -/

namespace MemcHeader

/-- `ntohs(hdr->keylen)` for a header at the start of `seg`. -/
def keylenAt (seg : List UInt8) : Nat := ofBE ((seg.drop 2).take 2)

/-- Both lengths of a header at the start of `seg`. -/
def lens (seg : List UInt8) : Nat × Nat := (keylenAt seg, bodylenAt seg)

theorem keylenAt_lt (seg : List UInt8) : keylenAt seg < 2 ^ 16 := by
  have hlen : ((seg.drop 2).take 2).length ≤ 2 := List.length_take_le ..
  exact Nat.lt_of_lt_of_le (ofBE_lt _)
    (Nat.pow_le_pow_right (by decide) hlen : _ ≤ 256 ^ 2)

/-- The lengths are among the first twelve bytes. -/
theorem lens_take {seg : List UInt8} {n : Nat} (hn : 12 ≤ n) :
    lens (seg.take n) = lens seg := by
  simp only [lens, keylenAt, bodylenAt, List.drop_take, List.take_take]
  rw [Nat.min_eq_left (by omega), Nat.min_eq_left (by omega)]

theorem lens_append {hdr : List UInt8} (h : hdr.length = size)
    (rest : List UInt8) : lens (hdr ++ rest) = lens hdr := by
  rw [← lens_take (n := size) (by decide), List.take_left' h]

/-- **The lengths that the constructor stores.** -/
theorem lens_make (t : MemcType) (c : MemcCmd) (el : UInt8) (kl : UInt16)
    (vl : UInt32) :
    lens (make t c el kl vl).bytes =
      (kl.toNat, (el.toUInt32 + kl.toUInt32 + vl).toNat) := by
  have hkey : toLE 2 (htons kl).toNat = toBE 2 kl.toNat := by
    rw [htons_toNat, toLE_swap]
  have hbody : ∀ n : UInt32, toLE 4 (htonl n).toNat = toBE 4 n.toNat := by
    intro n
    rw [htonl_toNat, toLE_swap]
  have hkeylen : keylenAt (make t c el kl vl).bytes =
      ofBE (toLE 2 (htons kl).toNat) := rfl
  have hbodylen : bodylenAt (make t c el kl vl).bytes =
      ofBE (toLE 4 (htonl (el.toUInt32 + kl.toUInt32 + vl)).toNat) := rfl
  rw [lens, hkeylen, hbodylen, hkey, hbody, ofBE_toBE, ofBE_toBE]
  exact congrArg₂ Prod.mk (Nat.mod_eq_of_lt kl.toNat_lt)
    (Nat.mod_eq_of_lt (UInt32.toNat_lt _))

/-- The sum of the three lengths is right when it fits. -/
theorem lens_make_of_lt (t : MemcType) (c : MemcCmd) {el : UInt8}
    {kl : UInt16} {vl : UInt32}
    (hfits : el.toNat + kl.toNat + vl.toNat < 2 ^ 32) :
    lens (make t c el kl vl).bytes =
      (kl.toNat, el.toNat + kl.toNat + vl.toNat) := by
  rw [lens_make, UInt32.toNat_add, UInt32.toNat_add, UInt8.toNat_toUInt32,
    UInt16.toNat_toUInt32, Nat.mod_add_mod, Nat.mod_eq_of_lt hfits]

/-- The copies that add the header at slot `tail` of the ring read its two
lengths. -/
def Spared (h : MemcHeader) (C tail : Nat) (stack : Nat → UInt8) : Prop :=
  lens (Sock.emplaced C tail h.bytes stack) = lens h.bytes

/-- The ring may end behind the lengths. -/
theorem Spared.of_le (h : MemcHeader) {C tail : Nat} (hle : tail + 12 ≤ C)
    (stack : Nat → UInt8) : h.Spared C tail stack := by
  rw [Spared, Sock.emplaced]
  by_cases hwrap : C ≤ tail + h.bytes.length
  · have hcut : C - tail ≤ h.bytes.length := by omega
    rw [if_pos hwrap, ← lens_take (Nat.le_refl 12),
      List.take_append_of_le_length (by rw [length_block]; omega),
      take_block (by omega),
      ← take_block (show 12 ≤ h.bytes.length by omega), block_blit,
      lens_take (Nat.le_refl 12)]
  · rw [if_neg hwrap]

/-- **The lengths are spared** by every stack exactly if the ring does not end
before them. -/
theorem forall_spared_iff (h : MemcHeader) {C : ℕ+} {tail : Nat}
    (htail : tail < C) :
    (∀ stack, h.Spared C tail stack) ↔ tail + 12 ≤ C := by
  refine ⟨fun hall => ?_, fun hle => Spared.of_le h hle⟩
  by_contra hcut
  -- the last byte of `bodylen` comes from the stack, where it is another one
  have hsize : h.bytes.length = 24 := h.length_bytes
  have hlast : 11 < h.bytes.length := by omega
  have hlens := hall fun _ => h.bytes[11] + 1
  have hread := congrArg Prod.snd hlens
  have hlength := Sock.length_emplaced h.bytes (fun _ => h.bytes[11] + 1) htail
  have hbytes := congrArg (·[3]?) (ofBE_inj (by simp [hlength]) hread)
  have hbyte : (Sock.emplaced C tail h.bytes fun _ => h.bytes[11] + 1)[11]? =
      some (h.bytes[11] + 1) := Sock.emplaced_cut htail (by omega) hlast
  simp only [List.getElem?_take_of_lt (show 3 < 4 by decide),
    List.getElem?_drop] at hbytes
  rw [hbyte, List.getElem?_eq_getElem hlast, Option.some.injEq] at hbytes
  exact absurd hbytes (by simp)

end MemcHeader

/-- The header at the start of `req` counts `keylen` bytes of key and all bytes
behind it. -/
def Counts (keylen : Nat) (req : List UInt8) : Prop :=
  MemcHeader.keylenAt req = keylen ∧
    MemcHeader.size + MemcHeader.bodylenAt req = req.length

/-- **A header counts its request** when it was made for its lengths, and was
added whole. -/
private theorem counts_iff {h : MemcHeader} {C : ℕ+} {tail keylen : Nat}
    (stack : Nat → UInt8) (htail : tail < C) {rest : List UInt8}
    (hmade : keylen < 2 ^ 16 →
      MemcHeader.lens h.bytes = (keylen, rest.length)) :
    Counts keylen (Sock.emplaced C tail h.bytes stack ++ rest) ↔
      keylen < 2 ^ 16 ∧ h.Spared C tail stack := by
  have hsize : (Sock.emplaced C tail h.bytes stack).length =
      MemcHeader.size := by
    rw [Sock.length_emplaced _ _ htail, h.length_bytes]
  have hlens := MemcHeader.lens_append hsize rest
  have hcounts : Counts keylen (Sock.emplaced C tail h.bytes stack ++ rest) ↔
      MemcHeader.lens (Sock.emplaced C tail h.bytes stack) =
        (keylen, rest.length) := by
    rw [← hlens, MemcHeader.lens, Prod.mk.injEq, Counts, List.length_append,
      hsize, Nat.add_left_cancel_iff]
  rw [hcounts]
  constructor
  · intro heq
    have hlt := MemcHeader.keylenAt_lt (Sock.emplaced C tail h.bytes stack)
    rw [show MemcHeader.keylenAt _ = keylen from congrArg Prod.fst heq] at hlt
    exact ⟨hlt, heq.trans (hmade hlt).symm⟩
  · rintro ⟨hlt, hspared⟩
    exact hspared.trans (hmade hlt)

theorem Keyed.length_eq {n m : Nat} {key bytes : List UInt8}
    (h : Keyed n m key bytes) : bytes.length = n + key.length + m := by
  obtain ⟨front, back, rfl, hfront, hback⟩ := h
  rw [List.length_append, List.length_append, hfront, hback]

/-- What was added to `wbuf_` is not too long for 32 bits. -/
private theorem length_lt_of_added {b : Buffer UInt8 charbufSize} (hb : b.WF)
    {xs ys : List UInt8} (hlist : b.toList = xs ++ ys) :
    ys.length < 2 ^ 32 := by
  have hlen := congrArg List.length hlist
  rw [Buffer.length_toList, List.length_append] at hlen
  have hused := hb.used_le
  have hsize : (charbufSize : Nat) < 2 ^ 32 := by decide
  omega

/-! ## The generator -/

namespace Memcache

section Requests

variable {K : Type} {R : ℕ+} {cfg : Config} {clk : Nat → Nat}

/-- The header of a request. -/
def requestHeader (cfg : Config) : MemcCmd → MemcHeader
  | .get => .make .request .get 0 (UInt16.ofNat cfg.keysize) 0
  | op => .make .request op 8 (UInt16.ofNat cfg.keysize)
      (UInt32.ofNat cfg.valsize)

/-- The bytes of a request behind its header and in front of its key. -/
def extralen : MemcCmd → Nat
  | .get => 0
  | _ => 8

theorem keyOffset_eq (op : MemcCmd) :
    keyOffset op = MemcHeader.size + extralen op := by
  cases op <;> rfl

/-- **What a request adds**: its header as the copies read it, and then the
extras, the key and the value. -/
theorem writeRequest_then {W : Type} {C : ℕ+} {s s' : Sock W R C} (h : s.WF)
    (op : MemcCmd) (key : List UInt8) (stack : Nat → Nat → UInt8)
    (hrun : writeRequest cfg op key stack s = .ok () s') :
    ∃ (b : Buffer UInt8 C) (rest : List UInt8), s' = { s with wbuf := b } ∧
      b.WF ∧ Keyed (extralen op) (valLen cfg op) key rest ∧
      b.toList = s.wbuf.toList ++ (Sock.emplaced C s.wbuf.tail
        (requestHeader cfg op).bytes (stack 0) ++ rest) := by
  cases op with
  | get => exact Sock.writeEmplace_then (puts_key key) h hrun
  | set => exact Sock.writeEmplace_then (writeExtras_puts key stack) h hrun
  | setq => exact Sock.writeEmplace_then (writeExtras_puts key stack) h hrun

/-- A request that is not too long for its lengths. -/
def Short (cfg : Config) (op : MemcCmd) : Prop :=
  extralen op + (UInt16.ofNat cfg.keysize).toNat + valLen cfg op < 2 ^ 32

theorem lens_requestHeader {op : MemcCmd} (hshort : Short cfg op) :
    MemcHeader.lens (requestHeader cfg op).bytes =
      ((UInt16.ofNat cfg.keysize).toNat,
        extralen op + (UInt16.ofNat cfg.keysize).toNat + valLen cfg op) := by
  have hset : ∀ c : MemcCmd, 8 + (UInt16.ofNat cfg.keysize).toNat +
      cfg.valsize < 2 ^ 32 →
      MemcHeader.lens (MemcHeader.make .request c 8
        (UInt16.ofNat cfg.keysize) (UInt32.ofNat cfg.valsize)).bytes =
      ((UInt16.ofNat cfg.keysize).toNat,
        8 + (UInt16.ofNat cfg.keysize).toNat + cfg.valsize) := by
    intro c hlt
    have hval : (UInt32.ofNat cfg.valsize).toNat = cfg.valsize :=
      Nat.mod_eq_of_lt (Nat.lt_of_le_of_lt (Nat.le_add_left ..) hlt)
    rw [MemcHeader.lens_make_of_lt _ _ (by rw [hval]; exact hlt), hval]
    rfl
  cases op with
  | get => exact MemcHeader.lens_make_of_lt _ _ hshort
  | set => exact hset _ hshort
  | setq => exact hset _ hshort

theorem bodlen_eq {op : MemcCmd} (hshort : Short cfg op) :
    (bodlen cfg op).toNat =
      extralen op + (UInt16.ofNat cfg.keysize).toNat + valLen cfg op := by
  have hset : 8 + (UInt16.ofNat cfg.keysize).toNat + cfg.valsize < 2 ^ 32 →
      ((UInt16.ofNat cfg.keysize).toUInt32 + 8 +
        UInt32.ofNat cfg.valsize).toNat =
      8 + (UInt16.ofNat cfg.keysize).toNat + cfg.valsize := by
    intro hlt
    rw [UInt32.toNat_add, UInt32.toNat_add, UInt16.toNat_toUInt32,
      UInt32.toNat_ofNat', Nat.mod_add_mod, Nat.add_mod_mod]
    show ((UInt16.ofNat cfg.keysize).toNat + 8 + cfg.valsize) % 2 ^ 32 = _
    omega
  cases op with
  | get => exact (Nat.zero_add _).symm
  | set => exact hset hshort
  | setq => exact hset hshort

/-- **What `_send_request` adds**, and the number it returns. -/
theorem sendRequest_adds {s s' : Conn MemcCmd (State K) R charbufSize}
    (h : s.WF) {low measure : Bool} {cb : RequestCB K}
    {stack : Nat → Nat → UInt8} {wout : List WriteRes} {rin : List ReadRes}
    {n : Nat}
    (hrun : sendRequest cfg clk low measure cb stack wout rin s = .ok n s') :
    n = MemcHeader.size + (bodlen cfg (chooseCmd low)).toNat ∧
    ∃ rest, rest.length < 2 ^ 32 ∧
      Keyed (extralen (chooseCmd low)) (valLen cfg (chooseCmd low))
        (keyFor cfg s.world.client.seqid) rest ∧
      s'.view.stream = s.view.stream ++ (Sock.emplaced charbufSize s.wbuf.tail
        (requestHeader cfg (chooseCmd low)).bytes (stack 0) ++ rest) := by
  have hid : Sock.onWorld nextId s =
      .ok s.world.client.seqid (numbered s) := rfl
  rw [sendRequest, bind_of_ok hid, chooseKey] at hrun
  by_cases hrecords : cfg.records = 0
  · rw [if_pos hrecords] at hrun
    cases hrun
  rw [if_neg hrecords, bind_of_ok (pure_apply _ _)] at hrun
  obtain ⟨⟨⟩, t, hwrite, hrest⟩ := bind_eq_ok.mp hrun
  have hwf : (numbered s).WF := ⟨h.rxCbs, h.rbuf, h.txCbs, h.wbuf⟩
  obtain ⟨b, rest, rfl, hb, hkeyed, hlist⟩ := writeRequest_then hwf _ _ _ hwrite
  have hstream := (submit_leaves (s := { numbered s with wbuf := b })
    ⟨h.rxCbs, h.rbuf, h.txCbs, hb⟩ _ measure _ _ wout rin).stream_eq hrest
  obtain ⟨p, u, -, hsubmit⟩ := bind_eq_ok.mp hrest
  obtain ⟨⟨⟩, v, -, hreturn⟩ := bind_eq_ok.mp hsubmit
  cases hreturn
  refine ⟨rfl, rest, ?_, hkeyed, ?_⟩
  · exact length_lt_of_added hb (hlist.trans (List.append_assoc ..).symm)
  · rw [hstream]
    show accepted s.trace ++ b.toList = accepted s.trace ++ s.wbuf.toList ++ _
    rw [List.append_assoc]
    exact congrArg _ hlist

/-- **`_send_request`** returns the number of bytes that it added, and their
header counts them as far as its lengths were added. -/
theorem sendRequest_counts {s s' : Conn MemcCmd (State K) R charbufSize}
    (h : s.WF) {low measure : Bool} {cb : RequestCB K}
    {stack : Nat → Nat → UInt8} {wout : List WriteRes} {rin : List ReadRes}
    {n : Nat}
    (hrun : sendRequest cfg clk low measure cb stack wout rin s = .ok n s') :
    ∃ req, s'.view.stream = s.view.stream ++ req ∧ n = req.length ∧
      Keyed (keyOffset (chooseCmd low)) (valLen cfg (chooseCmd low))
        (keyFor cfg s.world.client.seqid) req ∧
      (Counts (keyFor cfg s.world.client.seqid).length req ↔
        (requestHeader cfg (chooseCmd low)).Spared charbufSize s.wbuf.tail
          (stack 0)) := by
  obtain ⟨rfl, rest, hlt, hkeyed, hstream⟩ := sendRequest_adds h hrun
  have hkey : (keyFor cfg s.world.client.seqid).length =
      (UInt16.ofNat cfg.keysize).toNat := length_key _ _
  have hhdr : (Sock.emplaced charbufSize s.wbuf.tail
      (requestHeader cfg (chooseCmd low)).bytes (stack 0)).length =
      MemcHeader.size := by
    rw [Sock.length_emplaced _ _ h.wbuf.tail_lt, MemcHeader.length_bytes]
  have hlen := hkeyed.length_eq
  rw [hkey] at hlen
  have hshort : Short cfg (chooseCmd low) := by
    rw [Short, ← hlen]
    exact hlt
  refine ⟨_, hstream, ?_, ?_, ?_⟩
  · rw [List.length_append, hhdr, bodlen_eq hshort, hlen]
  · rw [keyOffset_eq, ← hhdr]
    exact hkeyed.behind _
  · rw [hkey, counts_iff (stack 0) h.wbuf.tail_lt fun _ =>
      (lens_requestHeader hshort).trans (congrArg (Prod.mk _) hlen.symm)]
    exact and_iff_right (UInt16.toNat_lt _)

end Requests

end Memcache

/-! ## The loader -/

namespace MemcacheLoad

section Requests

variable {R : ℕ+} {cfg : Config}

/-- The header of a set. -/
def setHeader (cfg : Config) (op : MemcCmd) : MemcHeader :=
  .make .request op 8 (UInt16.ofNat cfg.keysize) (UInt32.ofNat cfg.valsize)

/-- **What a set adds**: its header as the copies read it, and then the extras,
the key and the value. -/
theorem writeSet_then {C : ℕ+} {s s' : Sock Loader R C} (h : s.WF)
    (op : MemcCmd) (seqid : UInt64) (stack : Nat → Nat → UInt8)
    (hrun : writeSet cfg op seqid stack s = .ok () s') :
    ∃ (b : Buffer UInt8 C) (rest : List UInt8), s' = { s with wbuf := b } ∧
      b.WF ∧ Keyed 8 cfg.valsize (nextKey cfg seqid) rest ∧
      b.toList = s.wbuf.toList ++ (Sock.emplaced C s.wbuf.tail
        (setHeader cfg op).bytes (stack 0) ++ rest) :=
  Sock.writeEmplace_then (writeSetExtras_puts seqid stack) h hrun

theorem lens_setHeader (op : MemcCmd) (hkey : cfg.keysize < 2 ^ 16)
    (hshort : 8 + cfg.keysize + cfg.valsize < 2 ^ 32) :
    MemcHeader.lens (setHeader cfg op).bytes =
      (cfg.keysize, 8 + cfg.keysize + cfg.valsize) := by
  have hkl : (UInt16.ofNat cfg.keysize).toNat = cfg.keysize :=
    Nat.mod_eq_of_lt hkey
  have hval : (UInt32.ofNat cfg.valsize).toNat = cfg.valsize :=
    Nat.mod_eq_of_lt (Nat.lt_of_le_of_lt (Nat.le_add_left ..) hshort)
  rw [setHeader, MemcHeader.lens_make_of_lt _ _
    (by rw [hkl, hval]; exact hshort), hkl, hval]
  rfl

/-- **What `send_request` adds.** -/
theorem sendRequest_adds {s s' : Sock Loader R charbufSize}
    (h : s.WF) {seqid : UInt64} {quiet : Bool}
    {stack : Nat → Nat → UInt8} {wout : List WriteRes} {rin : List ReadRes}
    (hrun : sendRequest cfg seqid quiet stack wout rin s = .ok () s') :
    ∃ rest, rest.length < 2 ^ 32 ∧
      Keyed 8 cfg.valsize (nextKey cfg seqid) rest ∧
      s'.view.stream = s.view.stream ++ (Sock.emplaced charbufSize s.wbuf.tail
        (setHeader cfg (if quiet then .setq else .set)).bytes (stack 0) ++
        rest) := by
  obtain ⟨⟨⟩, t, hwrite, hrest⟩ := bind_eq_ok.mp hrun
  obtain ⟨b, rest, rfl, hb, hkeyed, hlist⟩ := writeSet_then h _ _ _ hwrite
  have hstream := (sent_leaves (s := { s with wbuf := b })
    ⟨h.rxCbs, h.rbuf, h.txCbs, hb⟩ quiet wout rin).stream_eq hrest
  refine ⟨rest, ?_, hkeyed, ?_⟩
  · exact length_lt_of_added hb (hlist.trans (List.append_assoc ..).symm)
  · rw [hstream]
    show accepted s.trace ++ b.toList = accepted s.trace ++ s.wbuf.toList ++ _
    rw [List.append_assoc]
    exact congrArg _ hlist

/-- **The header of a set** counts it when the size of the keys fits into the
header, as far as its lengths were added. -/
theorem sendRequest_counts {s s' : Sock Loader R charbufSize}
    (h : s.WF) {seqid : UInt64} {quiet : Bool}
    {stack : Nat → Nat → UInt8} {wout : List WriteRes} {rin : List ReadRes}
    (hrun : sendRequest cfg seqid quiet stack wout rin s = .ok () s') :
    ∃ req, s'.view.stream = s.view.stream ++ req ∧
      Keyed keyOffset cfg.valsize (nextKey cfg seqid) req ∧
      (Counts (nextKey cfg seqid).length req ↔ cfg.keysize < 2 ^ 16 ∧
        (setHeader cfg (if quiet then .setq else .set)).Spared charbufSize
          s.wbuf.tail (stack 0)) := by
  obtain ⟨rest, hshort, hkeyed, hstream⟩ := sendRequest_adds h hrun
  have hkey : (nextKey cfg seqid).length = cfg.keysize :=
    length_formatKey _ _
  have hlen := hkeyed.length_eq
  rw [hkey] at hlen
  refine ⟨_, hstream, ?_, ?_⟩
  · have hbehind := hkeyed.behind (Sock.emplaced charbufSize s.wbuf.tail
      (setHeader cfg (if quiet then .setq else .set)).bytes (stack 0))
    rwa [Sock.length_emplaced _ _ h.wbuf.tail_lt,
      MemcHeader.length_bytes] at hbehind
  · rw [hkey]
    exact counts_iff (stack 0) h.wbuf.tail_lt fun hlt =>
      (lens_setHeader _ hlt (hlen ▸ hshort)).trans
        (congrArg (Prod.mk _) hlen.symm)

end Requests

end MemcacheLoad

/-! ## Both -/

/-- **Request framing.**  A header counts its request when its lengths were
added, and for the loader when the size of the keys is less than 2^16; the
generator returns the number of bytes it added.  The lengths are added, whatever
lies on the stack, exactly if the ring does not end before them. -/
theorem requests_counted {R : ℕ+} :
    (∀ {K : Type} (cfg : Memcache.Config) (clk : Nat → Nat)
      (s s' : Conn MemcCmd (Memcache.State K) R charbufSize)
      (low measure : Bool) (cb : RequestCB K) (stack : Nat → Nat → UInt8)
      (wout : List WriteRes) (rin : List ReadRes) (n : Nat), s.WF →
      Memcache.sendRequest cfg clk low measure cb stack wout rin s =
        .ok n s' →
      ∃ req, s'.view.stream = s.view.stream ++ req ∧ n = req.length ∧
        Keyed (Memcache.keyOffset (Memcache.chooseCmd low))
          (Memcache.valLen cfg (Memcache.chooseCmd low))
          (Memcache.keyFor cfg s.world.client.seqid) req ∧
        (Counts (Memcache.keyFor cfg s.world.client.seqid).length req ↔
          (Memcache.requestHeader cfg (Memcache.chooseCmd low)).Spared
            charbufSize s.wbuf.tail (stack 0)) ∧
        ((∀ stack, (Memcache.requestHeader cfg
            (Memcache.chooseCmd low)).Spared charbufSize s.wbuf.tail stack) ↔
          s.wbuf.tail + 12 ≤ charbufSize)) ∧
    ∀ (cfg : MemcacheLoad.Config)
      (s s' : Sock MemcacheLoad.Loader R charbufSize) (seqid : UInt64)
      (quiet : Bool) (stack : Nat → Nat → UInt8) (wout : List WriteRes)
      (rin : List ReadRes), s.WF →
      MemcacheLoad.sendRequest cfg seqid quiet stack wout rin s =
        .ok () s' →
      ∃ req, s'.view.stream = s.view.stream ++ req ∧
        Keyed MemcacheLoad.keyOffset cfg.valsize
          (MemcacheLoad.nextKey cfg seqid) req ∧
        (Counts (MemcacheLoad.nextKey cfg seqid).length req ↔
          cfg.keysize < 2 ^ 16 ∧
          (MemcacheLoad.setHeader cfg (if quiet then .setq else .set)).Spared
            charbufSize s.wbuf.tail (stack 0)) ∧
        ((∀ stack, (MemcacheLoad.setHeader cfg
            (if quiet then .setq else .set)).Spared charbufSize s.wbuf.tail
              stack) ↔ s.wbuf.tail + 12 ≤ charbufSize) := by
  constructor
  · intro K cfg clk s s' low measure cb stack wout rin n h hrun
    obtain ⟨req, hstream, hn, hkeyed, hcounts⟩ :=
      Memcache.sendRequest_counts h hrun
    exact ⟨req, hstream, hn, hkeyed, hcounts,
      MemcHeader.forall_spared_iff _ h.wbuf.tail_lt⟩
  · intro cfg s s' seqid quiet stack wout rin h hrun
    obtain ⟨req, hstream, hkeyed, hcounts⟩ :=
      MemcacheLoad.sendRequest_counts h hrun
    exact ⟨req, hstream, hkeyed, hcounts,
      MemcHeader.forall_spared_iff _ h.wbuf.tail_lt⟩

/-- A new generator and a new loader, whose keys have two bytes and whose values
have one. -/
private def newGenerator :
    Conn MemcCmd (Memcache.State Unit) maxOutstandingReqs charbufSize :=
  Memcache.start 0 (fun _ => 0) (fun _ => 0) 0 ()

private def newLoader (cfg : MemcacheLoad.Config) :
    Sock MemcacheLoad.Loader maxOutstandingReqs charbufSize :=
  MemcacheLoad.start cfg 0 (fun _ => 0) (fun _ => 0)

theorem requests_counted_new :
    (∃ n s', Memcache.sendRequest ⟨3, 2, 1⟩ id true true
        (fun _ _ _ _ _ k => k) (fun _ _ => 0) [] [] newGenerator = .ok n s' ∧
      ∃ req, s'.view.stream = newGenerator.view.stream ++ req ∧
        n = req.length ∧
        (Counts (Memcache.keyFor ⟨3, 2, 1⟩ 0).length req ↔
          (Memcache.requestHeader ⟨3, 2, 1⟩ .set).Spared charbufSize 0
            fun _ => 0) ∧
        ((∀ stack, (Memcache.requestHeader ⟨3, 2, 1⟩ .set).Spared charbufSize
          0 stack) ↔ 0 + 12 ≤ (charbufSize : Nat))) ∧
    ∃ s', MemcacheLoad.sendRequest ⟨3, 2, 1, 1, 4, 2⟩ 1 false (fun _ _ => 0)
        [] [] (newLoader ⟨3, 2, 1, 1, 4, 2⟩) = .ok () s' ∧
      ∃ req, s'.view.stream =
          (newLoader ⟨3, 2, 1, 1, 4, 2⟩).view.stream ++ req ∧
        (Counts (MemcacheLoad.nextKey ⟨3, 2, 1, 1, 4, 2⟩ 1).length req ↔
          2 < 2 ^ 16 ∧ (MemcacheLoad.setHeader ⟨3, 2, 1, 1, 4, 2⟩ .set).Spared
            charbufSize 0 fun _ => 0) ∧
        ((∀ stack, (MemcacheLoad.setHeader ⟨3, 2, 1, 1, 4, 2⟩ .set).Spared
          charbufSize 0 stack) ↔ 0 + 12 ≤ (charbufSize : Nat)) := by
  constructor
  · obtain ⟨n, s', hrun⟩ := exists_ok_of_returned
      (r := Memcache.sendRequest ⟨3, 2, 1⟩ id true true
        (fun _ _ _ _ _ k => k) (fun _ _ => 0) [] [] newGenerator)
      (by decide +kernel)
    obtain ⟨req, hstream, hn, -, hcounts⟩ := requests_counted.1 _ _ _ _ _ _ _ _
      _ _ _ (Sock.init_wf _ _ _ _) hrun
    exact ⟨n, s', hrun, req, hstream, hn, hcounts⟩
  · obtain ⟨⟨⟩, s', hrun⟩ := exists_ok_of_returned
      (r := MemcacheLoad.sendRequest ⟨3, 2, 1, 1, 4, 2⟩ 1 false
        (fun _ _ => 0) [] [] (newLoader ⟨3, 2, 1, 1, 4, 2⟩))
      (by decide +kernel)
    obtain ⟨req, hstream, -, hcounts⟩ := requests_counted.2 _ _ _ _ _ _ _ _
      (Sock.init_wf _ _ _ _) hrun
    exact ⟨s', hrun, req, hstream, hcounts⟩

/-- The header of a set whose key has 65536 bytes says that it has none. -/
theorem not_counted_long : ∃ s', MemcacheLoad.sendRequest
      ⟨1, 65536, 1, 1, 100, 25⟩ 1 true (fun _ _ => 0) [] []
      (newLoader ⟨1, 65536, 1, 1, 100, 25⟩) = .ok () s' ∧
    ∃ req, s'.view.stream = req ∧ req.length = 24 + (8 + 65536 + 1) ∧
      MemcHeader.keylenAt req = 0 ∧ MemcHeader.bodylenAt req = 8 + 0 + 1 ∧
      ¬ Counts 65536 req := by
  have hwf : (newLoader ⟨1, 65536, 1, 1, 100, 25⟩).WF := Sock.init_wf _ _ _ _
  have hroom : MemcacheLoad.setSize ⟨1, 65536, 1, 1, 100, 25⟩ ≤
      (newLoader ⟨1, 65536, 1, 1, 100, 25⟩).wbuf.space := by decide
  obtain ⟨b, -, -, hrun⟩ := MemcacheLoad.sendRequest_waits hwf
    (Nat.succ_pos 65535) Nat.one_pos hroom (by decide) rfl rfl 1 true
    fun _ _ => 0
  obtain ⟨rest, -, hkeyed, hstream⟩ := MemcacheLoad.sendRequest_adds hwf hrun
  replace hstream : _ = Sock.emplaced charbufSize 0 (MemcacheLoad.setHeader
      ⟨1, 65536, 1, 1, 100, 25⟩ .setq).bytes (fun _ => 0) ++ rest := hstream
  have hsize : (Sock.emplaced charbufSize 0 (MemcacheLoad.setHeader
      ⟨1, 65536, 1, 1, 100, 25⟩ .setq).bytes fun _ => 0).length =
      MemcHeader.size := by
    rw [Sock.length_emplaced _ _ (by decide), MemcHeader.length_bytes]
  have hlens := (MemcHeader.lens_append hsize rest).trans
    ((MemcHeader.Spared.of_le _ (by decide) _).trans
      (MemcHeader.lens_make _ _ _ _ _))
  have hkey := congrArg Prod.fst hlens
  refine ⟨_, hrun, _, hstream, ?_, hkey, congrArg Prod.snd hlens, ?_⟩
  · have hrest := hkeyed.length_eq
    rw [MemcacheLoad.nextKey, length_formatKey] at hrest
    rw [List.length_append, hsize, hrest]
    rfl
  · rintro ⟨hcount, -⟩
    exact absurd (hkey.symm.trans hcount) (by decide)

end Mutated.Ports
