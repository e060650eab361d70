import Mutated.Ports.Memcache

/-!
# The header in network order

`hton` and `ntoh` convert a header in place, one field after the other.  Both
compute `version` from the `opaque` they have just converted, so the version
of a header is lost.

## Main results

`hton_roundTrip_iff` says for which headers the two conversions undo each
other and the version on the wire is the header's own.
-/

namespace Mutated.Ports

open Mutated.Verified.Endian

/-! ## The conversions -/

def ntohs (x : UInt16) : UInt16 := .ofNat (ofBE (toLE 2 x.toNat))

def ntohl (x : UInt32) : UInt32 := .ofNat (ofBE (toLE 4 x.toNat))

def ntohll (x : UInt64) : UInt64 := .ofNat (ofBE (toLE 8 x.toNat))

def MemcHeader.ntoh (h : MemcHeader) : MemcHeader :=
  { h with
    keylen := ntohs h.keylen
    status := ntohs h.status
    bodylen := ntohl h.bodylen
    opaqueField := ntohl h.opaqueField
    version := ntohll (ntohl h.opaqueField).toUInt64 }

theorem htons_toNat (x : UInt16) : (htons x).toNat = swap 2 x.toNat :=
  Nat.mod_eq_of_lt (swap_lt 2 x.toNat)

theorem htonl_toNat (x : UInt32) : (htonl x).toNat = swap 4 x.toNat :=
  Nat.mod_eq_of_lt (swap_lt 4 x.toNat)

theorem htonll_toNat (x : UInt64) : (htonll x).toNat = swap 8 x.toNat :=
  Nat.mod_eq_of_lt (swap_lt 8 x.toNat)

@[simp] theorem ntohs_eq (x : UInt16) : ntohs x = htons x := rfl

@[simp] theorem ntohl_eq (x : UInt32) : ntohl x = htonl x := rfl

@[simp] theorem ntohll_eq (x : UInt64) : ntohll x = htonll x := rfl

@[simp] theorem htons_htons (x : UInt16) : htons (htons x) = x := by
  apply UInt16.toNat.inj
  rw [htons_toNat, htons_toNat, swap_swap]
  exact Nat.mod_eq_of_lt x.toNat_lt

@[simp] theorem htonl_htonl (x : UInt32) : htonl (htonl x) = x := by
  apply UInt32.toNat.inj
  rw [htonl_toNat, htonl_toNat, swap_swap]
  exact Nat.mod_eq_of_lt x.toNat_lt

@[simp] theorem htonll_htonll (x : UInt64) : htonll (htonll x) = x := by
  apply UInt64.toNat.inj
  rw [htonll_toNat, htonll_toNat, swap_swap]
  exact Nat.mod_eq_of_lt x.toNat_lt

theorem htonll_inj {x y : UInt64} : htonll x = htonll y ↔ x = y := by
  constructor
  · intro h
    have hswap := congrArg htonll h
    rwa [htonll_htonll, htonll_htonll] at hswap
  · exact congrArg htonll

/-- The bytes of the big-endian image. -/
theorem toLE_htonll (x : UInt64) :
    toLE 8 (htonll x).toNat = toBE 8 x.toNat := by
  rw [htonll_toNat, toLE_swap]

/-- A number of four bytes goes to the upper half of the eight. -/
theorem htonll_toUInt64 (x : UInt32) :
    (htonll x.toUInt64).toNat = 2 ^ 32 * (htonl x).toNat := by
  have hsplit := swap_add 4 4 x.toNat_lt
  rw [htonll_toNat, htonl_toNat]
  exact hsplit

/-! ## Main results -/

namespace MemcHeader

/-- **Every field but the version** comes back. -/
theorem ntoh_hton (h : MemcHeader) :
    ntoh (hton h) = { h with version := htonll h.opaqueField.toUInt64 } := by
  simp only [ntoh, hton, ntohs_eq, ntohl_eq, ntohll_eq, htons_htons,
    htonl_htonl]

theorem hton_ntoh (h : MemcHeader) :
    hton (ntoh h) = { h with version := htonll h.opaqueField.toUInt64 } := by
  simp only [ntoh, hton, ntohs_eq, ntohl_eq, htons_htons, htonl_htonl]

private theorem setVersion_eq_iff (h : MemcHeader) (v : UInt64) :
    { h with version := v } = h ↔ h.version = v := by
  constructor
  · intro heq
    exact (congrArg version heq).symm
  · rintro rfl
    rfl

theorem version_hton_iff (h : MemcHeader) :
    toLE 8 (hton h).version.toNat = toBE 8 h.version.toNat ↔
      h.version = (htonl h.opaqueField).toUInt64 := by
  rw [← toLE_htonll, toLE_inj (UInt64.toNat_lt _) (UInt64.toNat_lt _),
    UInt64.toNat_inj]
  show htonll (htonl h.opaqueField).toUInt64 = htonll h.version ↔ _
  rw [htonll_inj, eq_comm]

/-- **The round trip**, both ways, with the version's own image on the wire,
for exactly the headers without `opaque` and version. -/
theorem hton_roundTrip_iff (h : MemcHeader) :
    (ntoh (hton h) = h ∧ hton (ntoh h) = h ∧
      toLE 8 (hton h).version.toNat = toBE 8 h.version.toNat) ↔
    h.opaqueField = 0 ∧ h.version = 0 := by
  rw [ntoh_hton, hton_ntoh, setVersion_eq_iff, version_hton_iff]
  constructor
  · rintro ⟨hback, -, himage⟩
    have hsame := congrArg UInt64.toNat (himage.symm.trans hback)
    rw [htonll_toUInt64, UInt32.toNat_toUInt64] at hsame
    have hzero : htonl h.opaqueField = 0 := by
      apply UInt32.toNat.inj
      show (htonl h.opaqueField).toNat = 0
      omega
    refine ⟨?_, ?_⟩
    · rw [← htonl_htonl h.opaqueField, hzero]
      rfl
    · rw [himage, hzero]
      rfl
  · rintro ⟨hcookie, hversion⟩
    rw [hcookie, hversion]
    decide

/-- A header with version 1 is sent with version 0. -/
theorem not_hton_roundTrip : ∃ h : MemcHeader, h.version = 1 ∧
    (hton h).version = 0 ∧ ntoh (hton h) ≠ h ∧ hton (ntoh h) ≠ h :=
  ⟨⟨.request, .get, 0, 0, 0, 0, 0, 0, 1⟩, by decide⟩

end MemcHeader

end Mutated.Ports
