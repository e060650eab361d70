import Mutated.Ports.SockReceive
import Mutated.Ports.SockWrites

/-!
# Calls that are served at once

What a call does when there is room for what it writes, when the kernel takes
all bytes that wait, and when the bytes of the only pending operation arrive
in one piece.  Such a call returns, and leaves nothing behind.
-/

namespace Mutated.Ports

open Mutated.Verified.Circular
open Mutated.Verified.Exec

variable {W : Type} {R C : ℕ+}

/-! ## Writing -/

/-- A call that returns when there is room for `n` bytes. -/
def Fits (n : Nat) (x : EStateM Exn (Sock W R C) Unit) : Prop :=
  ∀ s : Sock W R C, s.WF → n ≤ s.wbuf.space → ∃ s', x s = .ok () s'

theorem Fits.bind {m n : Nat} {x y : EStateM Exn (Sock W R C) Unit}
    (hx : Fits m x) (happends : Appends m x) (hy : Fits n y) :
    Fits (m + n) (x >>= fun _ => y) := by
  intro s h hroom
  obtain ⟨t, hrun⟩ := hx s h (by omega)
  obtain ⟨b, bytes, rfl, hb, hlen, hlist⟩ := happends _ _ h hrun
  have hused : b.used = s.wbuf.used + m := by
    rw [← Buffer.length_toList, hlist, List.length_append, hlen,
      Buffer.length_toList]
  obtain ⟨u, hrest⟩ := hy { s with wbuf := b } ⟨h.rxCbs, h.rbuf, h.txCbs, hb⟩
    (by
      show n ≤ C - b.used
      have hspace : s.wbuf.space = C - s.wbuf.used := rfl
      omega)
  exact ⟨u, (bind_of_ok hrun).trans hrest⟩

namespace Sock

variable {s : Sock W R C}

theorem write_fits {data : List UInt8} (hpos : 0 < data.length) :
    Fits data.length (write data : EStateM Exn (Sock W R C) Unit) :=
  fun _ h hfit => ⟨_, write_ok h hpos hfit⟩

theorem writeEmplace_fits {obj : List UInt8} (hpos : 0 < obj.length)
    (stack : Nat → UInt8) : Fits obj.length
      (writeEmplace obj stack : EStateM Exn (Sock W R C) Unit) :=
  fun _ h hfit => ⟨_, writeEmplace_ok h hpos hfit⟩

/-! ## Transmitting -/

end Sock

end Mutated.Ports
