import Mathlib.Data.Nat.ModEq
import Mathlib.Data.List.Basic

/-!
# Numbers as bytes

A number of `w` bytes is stored with its least significant byte first
(`toLE`), or last (`toBE`).  Reading the bytes back in the same order gives
the number again, as far as it fits; `swap` reads them in the other order.
-/

namespace Mutated.Verified.Endian

/-- The `w` low bytes of `n`, least significant first. -/
def toLE : Nat → Nat → List UInt8
  | 0, _ => []
  | w + 1, n => UInt8.ofNat n :: toLE w (n / 256)

/-- The number with the given bytes, least significant first. -/
def ofLE : List UInt8 → Nat
  | [] => 0
  | b :: bs => b.toNat + 256 * ofLE bs

def toBE (w n : Nat) : List UInt8 := (toLE w n).reverse

def ofBE (bs : List UInt8) : Nat := ofLE bs.reverse

@[simp] theorem length_toLE (w : Nat) : ∀ n, (toLE w n).length = w := by
  induction w with
  | zero =>
      intro n
      rfl
  | succ w ih =>
      intro n
      rw [toLE, List.length_cons, ih]

@[simp] theorem length_toBE (w n : Nat) : (toBE w n).length = w := by
  rw [toBE, List.length_reverse, length_toLE]

/-- **Reading back** what was stored. -/
theorem ofLE_toLE (w : Nat) : ∀ n, ofLE (toLE w n) = n % 256 ^ w := by
  induction w with
  | zero =>
      intro n
      simp [toLE, ofLE, Nat.mod_one]
  | succ w ih =>
      intro n
      have hsplit := Nat.mod_mul (a := 256) (b := 256 ^ w) (x := n)
      rw [toLE, ofLE, ih, Nat.pow_succ, Nat.mul_comm (256 ^ w), hsplit]
      rfl

theorem toLE_inj {w m n : Nat} (hm : m < 256 ^ w) (hn : n < 256 ^ w) :
    toLE w m = toLE w n ↔ m = n := by
  constructor
  · intro heq
    have hread := congrArg ofLE heq
    rwa [ofLE_toLE, ofLE_toLE, Nat.mod_eq_of_lt hm,
      Nat.mod_eq_of_lt hn] at hread
  · exact congrArg (toLE w)

theorem ofBE_toBE (w n : Nat) : ofBE (toBE w n) = n % 256 ^ w := by
  rw [ofBE, toBE, List.reverse_reverse, ofLE_toLE]

/-- **Storing** what was read. -/
theorem toLE_ofLE : ∀ bs : List UInt8, toLE bs.length (ofLE bs) = bs := by
  intro bs
  induction bs with
  | nil => rfl
  | cons b bs ih =>
      have hlow : UInt8.ofNat (b.toNat + 256 * ofLE bs) = b := by
        rw [UInt8.ofNat_add, UInt8.ofNat_mul, UInt8.ofNat_toNat]
        show b + 0 * _ = b
        rw [UInt8.zero_mul, UInt8.add_zero]
      have hhigh : (b.toNat + 256 * ofLE bs) / 256 = ofLE bs := by
        have hlt := b.toNat_lt
        omega
      rw [List.length_cons, toLE, ofLE, hlow, hhigh, ih]

/-- A number and its width tell the bytes. -/
theorem ofBE_inj {xs ys : List UInt8} (hlen : xs.length = ys.length)
    (h : ofBE xs = ofBE ys) : xs = ys := by
  have hread := congrArg (toLE xs.length) h
  rw [ofBE, ofBE, ← List.length_reverse, toLE_ofLE, List.length_reverse, hlen,
    ← List.length_reverse, toLE_ofLE] at hread
  exact List.reverse_injective hread

theorem ofLE_lt : ∀ bs : List UInt8, ofLE bs < 256 ^ bs.length := by
  intro bs
  induction bs with
  | nil => exact Nat.one_pos
  | cons b bs ih =>
      have hlt := b.toNat_lt
      rw [ofLE, List.length_cons, Nat.pow_succ]
      omega

theorem ofLE_append (xs ys : List UInt8) :
    ofLE (xs ++ ys) = ofLE xs + 256 ^ xs.length * ofLE ys := by
  induction xs with
  | nil => simp [ofLE]
  | cons x xs ih =>
      rw [List.cons_append, ofLE, ofLE, ih, List.length_cons, Nat.pow_succ,
        Nat.mul_add, Nat.mul_comm (256 ^ _) 256, Nat.mul_assoc,
        Nat.add_assoc]

theorem toLE_append (v w n : Nat) :
    toLE (v + w) n = toLE v n ++ toLE w (n / 256 ^ v) := by
  induction v generalizing n with
  | zero => simp [toLE]
  | succ v ih =>
      rw [Nat.add_right_comm, toLE, toLE, ih, Nat.div_div_eq_div_mul,
        Nat.pow_succ', List.cons_append]

theorem ofBE_lt (bs : List UInt8) : ofBE bs < 256 ^ bs.length := by
  have hlt := ofLE_lt bs.reverse
  rwa [List.length_reverse] at hlt

/-! ## Swapping -/

/-- The number whose `w` bytes are those of `n` the other way round. -/
def swap (w n : Nat) : Nat := ofBE (toLE w n)

theorem swap_lt (w n : Nat) : swap w n < 256 ^ w := by
  have hlt := ofBE_lt (toLE w n)
  rwa [length_toLE] at hlt

/-- **The swapped number is stored** as the number itself from the other
end. -/
theorem toLE_swap (w n : Nat) : toLE w (swap w n) = toBE w n := by
  have hread := toLE_ofLE (toBE w n)
  rwa [length_toBE] at hread

theorem swap_swap (w n : Nat) : swap w (swap w n) = n % 256 ^ w := by
  rw [swap, toLE_swap, ofBE_toBE]

theorem toLE_zero (w : Nat) : toLE w 0 = List.replicate w 0 := by
  induction w with
  | zero => rfl
  | succ w ih =>
      rw [toLE, Nat.zero_div, ih]
      rfl

theorem swap_zero (w : Nat) : swap w 0 = 0 := by
  have hread := ofBE_toBE w 0
  rwa [toBE, toLE_zero, List.reverse_replicate, ← toLE_zero,
    Nat.zero_mod] at hread

/-- A number that leaves its upper bytes empty fills them when it is
swapped. -/
theorem swap_add (v w : Nat) {n : Nat} (hn : n < 256 ^ v) :
    swap (v + w) n = 256 ^ w * swap v n := by
  have hzero : ofLE (toLE w 0).reverse = 0 := swap_zero w
  rw [swap, toLE_append, Nat.div_eq_of_lt hn, ofBE, List.reverse_append,
    ofLE_append, hzero, List.length_reverse, length_toLE, Nat.zero_add]
  rfl

end Mutated.Verified.Endian
