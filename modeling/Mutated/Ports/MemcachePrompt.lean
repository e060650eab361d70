import Mutated.Ports.MemcacheLoad
import Mutated.Ports.SockPrompt

/-!
# A loader that is served at once

The calls of the loader when the socket has room for a set, when the kernel
takes a set as soon as it is written, and when the server answers a loud set
before the call returns.
-/

namespace Mutated.Ports

open Mutated.Verified.Circular
open Mutated.Verified.Exec

namespace MemcacheLoad

variable {R C : ℕ+} {cfg : Config} {s : Sock Loader R C}

/-- The bytes of a set. -/
def setSize (cfg : Config) : Nat :=
  MemcHeader.size + (8 + (cfg.keysize + cfg.valsize))

theorem writeSet_fits (hkey : 0 < cfg.keysize) (hval : 0 < cfg.valsize)
    (op : MemcCmd) (seqid : UInt64) (stack : Nat → Nat → UInt8) :
    Fits (setSize cfg)
      (writeSet cfg op seqid stack : EStateM Exn (Sock Loader R C) Unit) := by
  have hkeylen : (nextKey cfg seqid).length = cfg.keysize :=
    length_formatKey _ _
  have hvallen : (nextVal cfg).length = cfg.valsize := List.length_replicate
  have hkeyfits := Sock.write_fits (W := Loader) (R := R) (C := C)
    (hkeylen.symm ▸ hkey)
  have hvalfits := Sock.write_fits (W := Loader) (R := R) (C := C)
    (hvallen.symm ▸ hval)
  have hbody := hkeyfits.bind (Sock.write_appends _) hvalfits
  rw [hkeylen, hvallen] at hbody
  have hhdrlen := (MemcHeader.make .request op 8 (UInt16.ofNat cfg.keysize)
    (UInt32.ofNat cfg.valsize)).length_bytes
  have hhdr := Sock.writeEmplace_fits (W := Loader) (R := R) (C := C)
    (by rw [hhdrlen]; decide) (stack 0)
  have hextras := Sock.writeEmplace_fits (W := Loader) (R := R) (C := C)
    (show 0 < memcExtrasSet.length by decide) (stack 1)
  have happends := Sock.writeEmplace_appends (W := Loader) (R := R) (C := C)
    (MemcHeader.make .request op 8 (UInt16.ofNat cfg.keysize)
      (UInt32.ofNat cfg.valsize)).bytes (stack 0)
  rw [hhdrlen] at hhdr happends
  exact hhdr.bind happends (hextras.bind (Sock.writeEmplace_appends _ _) hbody)

/-- A set that fits is written. -/
theorem writeSet_returns (h : s.WF) (hkey : 0 < cfg.keysize)
    (hval : 0 < cfg.valsize) (hroom : setSize cfg ≤ s.wbuf.space)
    (op : MemcCmd) (seqid : UInt64) (stack : Nat → Nat → UInt8) :
    ∃ b : Buffer UInt8 C, b.WF ∧ b.used = s.wbuf.used + setSize cfg ∧
      writeSet cfg op seqid stack s = .ok () { s with wbuf := b } := by
  obtain ⟨t, hrun⟩ := writeSet_fits hkey hval op seqid stack s h hroom
  obtain ⟨b, bytes, rfl, hb, hlen, hlist⟩ :=
    writeSet_appends op seqid stack _ _ h hrun
  refine ⟨b, hb, ?_, hrun⟩
  rw [← Buffer.length_toList, hlist, List.length_append, hlen,
    Buffer.length_toList]
  rfl

/-- `send_request` on a socket that is not ready only queues. -/
theorem sendRequest_waits (h : s.WF) (hkey : 0 < cfg.keysize)
    (hval : 0 < cfg.valsize) (hroom : setSize cfg ≤ s.wbuf.space)
    (hslot : 0 < s.rxCbs.space) (htx : s.txRdy = false)
    (hrx : s.rxRdy = false) (seqid : UInt64) (quiet : Bool)
    (stack : Nat → Nat → UInt8) :
    ∃ b : Buffer UInt8 C, b.WF ∧ b.used = s.wbuf.used + setSize cfg ∧
      sendRequest cfg seqid quiet stack [] [] s =
        .ok () (if quiet then { s with wbuf := b }
          else ({ s with wbuf := b } : Sock Loader R C).enqueued
            (awaitsSet cfg)) := by
  obtain ⟨b, hb, hused, hwrite⟩ := writeSet_returns h hkey hval hroom
    (if quiet then .setq else .set) seqid stack
  refine ⟨b, hb, hused, ?_⟩
  have htry : Sock.tryTx [] ({ s with wbuf := b } : Sock Loader R C) =
      .ok () { s with wbuf := b } := by
    show (if s.txRdy then Sock.tx [] else pure ()) _ = _
    rw [htx]
    rfl
  rw [sendRequest, bind_of_ok hwrite, bind_of_ok htry]
  cases quiet with
  | true => rfl
  | false =>
      have hwf : ({ s with wbuf := b } : Sock Loader R C).WF :=
        ⟨h.rxCbs, h.rbuf, h.txCbs, hb⟩
      refine (Sock.read_ok hwf hslot _ _).trans ?_
      show (if s.rxRdy then Sock.rx [] else pure ()) _ = _
      rw [hrx]
      rfl

/-- A socket in which nothing waits. -/
structure Idle (s : Sock Loader R C) : Prop where
  ops : s.rxCbs.used = 0
  rbuf : s.rbuf.used = 0
  points : s.txCbs.used = 0
  wbuf : s.wbuf.used = 0

/-- A response to a set. -/
def response : ReadRes := .data 129 (List.replicate 23 0)

end MemcacheLoad

end Mutated.Ports
