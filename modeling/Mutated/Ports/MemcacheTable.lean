import Mutated.Ports.MemcacheLoad

/-!
# The array of keys of the generator

The generator prints all its keys once, one after another in an array.

* `room` is what `operator new[]` can give, and `junk` what is there before.
* The array and its offsets are computed in 64 bits.  Printing a key past the
  end of the array is undefined, and stands for an exception.
-/

namespace Mutated.Ports

open Mutated.Verified.Circular

namespace Memcache

/-! ## The array of keys -/

/-- `KEYFMT_SIZE`. -/
def keyfmtSize : Nat := 30

/-- The text of `_keyfmt`: `%0<keysize>lu`. -/
def keyfmt (keysize : UInt64) : List Char :=
  ['%', '0'] ++ Nat.toDigits 10 keysize.toNat ++ ['l', 'u']

/-- The distance between two keys, which are terminated strings. -/
def stride (cfg : Config) : UInt64 := UInt64.ofNat cfg.keysize + 1

/-- The number of bytes of `_keys`. -/
def keysSize (cfg : Config) : UInt64 := UInt64.ofNat cfg.records * stride cfg

/-- The exception that stands for printing past the end of `_keys`. -/
def pastKeys : Exn :=
  .undefinedBehaviour "Memcache::Memcache: key past the end of _keys"

/-- The turn of the loop that prints the `i`-th key, from one on. -/
def printKey (cfg : Config) (mem : Nat → UInt8) (i : UInt64) :
    Except Exn (Nat → UInt8) :=
  let buf := (i - 1) * stride cfg
  if (keysSize cfg).toNat < buf.toNat + (stride cfg).toNat then
    .error pastKeys
  else
    .ok (blit mem buf.toNat (formatKey cfg.keysize i.toNat ++ [0]))

/-- The first `n` turns of the loop. -/
def printKeys (cfg : Config) (mem : Nat → UInt8) :
    Nat → Except Exn (Nat → UInt8)
  | 0 => .ok mem
  | n + 1 => do
      let mem ← printKeys cfg mem n
      printKey cfg mem (UInt64.ofNat (n + 1))

/-- The part of the constructor that sets up `_keys`. -/
def makeKeys (cfg : Config) (room : Nat) (junk : Nat → UInt8) :
    Except Exn (Nat → UInt8) :=
  if keyfmtSize ≤ (keyfmt (UInt64.ofNat cfg.keysize)).length then
    .error (.runtimeError
      "Memcache::Memcache: fmt buffer for printing keys too small")
  else if room < (keysSize cfg).toNat then
    .error (.runtimeError "std::bad_alloc")
  else printKeys cfg junk cfg.records

/-- The bytes `choose_key` points to, as far as `keylen` counts them. -/
def keyIn (cfg : Config) (keys : Nat → UInt8) (id : UInt64) : List UInt8 :=
  block keys ((id % UInt64.ofNat cfg.records) * stride cfg).toNat
    (UInt16.ofNat cfg.keysize).toNat

section Table

variable {cfg : Config} {keys : Nat → UInt8}

/-- The bounds of the options. -/
structure Config.Fits (cfg : Config) : Prop where
  records : 1 ≤ cfg.records ∧ cfg.records < 2 ^ 64
  keysize : 1 ≤ cfg.keysize ∧ cfg.keysize ≤ 65535

namespace Config.Fits

variable (hfits : cfg.Fits)

include hfits

theorem stride_eq : (stride cfg).toNat = cfg.keysize + 1 := by
  have hkeysize := hfits.keysize
  rw [stride, UInt64.toNat_add, UInt64.toNat_ofNat']
  simp only [UInt64.toNat_one]
  omega

theorem keysSize_eq :
    (keysSize cfg).toNat = cfg.records * (cfg.keysize + 1) % 2 ^ 64 := by
  have hrecords := hfits.records
  rw [keysSize, UInt64.toNat_mul, hfits.stride_eq, UInt64.toNat_ofNat',
    Nat.mod_eq_of_lt hrecords.2]

theorem keylen_eq : (UInt16.ofNat cfg.keysize).toNat = cfg.keysize := by
  have hkeysize := hfits.keysize
  rw [UInt16.toNat_ofNat']
  omega

theorem records_ne : cfg.records ≠ 0 :=
  Nat.pos_iff_ne_zero.mp hfits.records.1

theorem slot_lt (id : UInt64) : id.toNat % cfg.records < cfg.records :=
  Nat.mod_lt _ hfits.records.1

theorem recordId_eq (id : UInt64) :
    (UInt64.ofNat (id.toNat % cfg.records + 1)).toNat =
      id.toNat % cfg.records + 1 := by
  have hslot := hfits.slot_lt id
  have hrecords := hfits.records
  exact UInt64.toNat_ofNat_of_lt' (Nat.lt_of_le_of_lt hslot hrecords.2)

/-- A key that is in the array is at its offset. -/
theorem offset_eq {j : Nat} (hj : j < 2 ^ 64)
    (hin : j * (cfg.keysize + 1) < 2 ^ 64) :
    (UInt64.ofNat j * stride cfg).toNat = j * (cfg.keysize + 1) := by
  rw [UInt64.toNat_mul, hfits.stride_eq, UInt64.toNat_ofNat',
    Nat.mod_eq_of_lt hj, Nat.mod_eq_of_lt hin]

end Config.Fits

/-- One turn of the loop stays in the array and leaves the other keys. -/
private theorem printKey_ok (hfits : cfg.Fits) {n : Nat}
    (hn : n < cfg.records)
    (hbefore : n * (cfg.keysize + 1) ≤ (keysSize cfg).toNat)
    {mem : Nat → UInt8} (h : printKey cfg mem (UInt64.ofNat (n + 1)) =
      .ok keys) :
    (n + 1) * (cfg.keysize + 1) ≤ (keysSize cfg).toNat ∧
      keys = blit mem (n * (cfg.keysize + 1))
        (formatKey cfg.keysize (n + 1) ++ [0]) := by
  have hrecords := hfits.records
  have hlt := (keysSize cfg).toNat_lt
  have hprev : UInt64.ofNat (n + 1) - 1 = UInt64.ofNat n := by
    rw [UInt64.ofNat_add]
    exact UInt64.add_sub_cancel _ _
  have hbuf := hfits.offset_eq (j := n) (by omega) (by omega)
  have hid : (UInt64.ofNat (n + 1)).toNat = n + 1 := by
    rw [UInt64.toNat_ofNat']
    omega
  simp only [printKey, hprev, hbuf, hid, hfits.stride_eq] at h
  by_cases hpast : (keysSize cfg).toNat <
      n * (cfg.keysize + 1) + (cfg.keysize + 1)
  · rw [if_pos hpast] at h
    cases h
  · rw [if_neg hpast] at h
    cases h
    refine ⟨?_, rfl⟩
    rw [Nat.succ_mul]
    omega

/-- **The loop** prints key `j + 1` at `j` times the stride. -/
private theorem printKeys_ok (hfits : cfg.Fits) {mem : Nat → UInt8} :
    ∀ {n : Nat} {keys : Nat → UInt8}, n ≤ cfg.records →
    printKeys cfg mem n = .ok keys →
    n * (cfg.keysize + 1) ≤ (keysSize cfg).toNat ∧
      ∀ j, j < n → block keys (j * (cfg.keysize + 1)) cfg.keysize =
        formatKey cfg.keysize (j + 1) := by
  intro n
  induction n with
  | zero =>
      intro keys _ _
      rw [Nat.zero_mul]
      exact ⟨Nat.zero_le _, fun j hj => absurd hj (Nat.not_lt_zero j)⟩
  | succ n ih =>
      intro keys hn h
      cases hprev : printKeys cfg mem n with
      | error e =>
          rw [printKeys, hprev] at h
          cases h
      | ok mem' =>
          rw [printKeys, hprev] at h
          obtain ⟨hin, hkeys⟩ := ih (by omega) hprev
          obtain ⟨hin', rfl⟩ := printKey_ok hfits (by omega) hin h
          refine ⟨hin', fun j hj => ?_⟩
          rcases Nat.lt_succ_iff_lt_or_eq.mp hj with hold | rfl
          · have hdistinct : j * (cfg.keysize + 1) + cfg.keysize ≤
                n * (cfg.keysize + 1) := by
              have hstep := Nat.mul_le_mul_right (cfg.keysize + 1)
                (show j + 1 ≤ n from hold)
              rw [Nat.succ_mul] at hstep
              omega
            rw [block_blit_before hdistinct]
            exact hkeys j hold
          · have hlen : (formatKey cfg.keysize (j + 1) ++ [0]).length =
                cfg.keysize + 1 := by
              rw [List.length_append, length_formatKey, List.length_singleton]
            have hread := block_blit mem' (j * (cfg.keysize + 1))
              (formatKey cfg.keysize (j + 1) ++ [0])
            rw [hlen] at hread
            rw [← take_block (Nat.le_succ cfg.keysize), hread,
              List.take_left' (length_formatKey _ _)]

/-- **`choose_key`** finds the key that `_send_request` writes. -/
theorem keyIn_eq (hfits : cfg.Fits) {room : Nat} {junk : Nat → UInt8}
    (hkeys : makeKeys cfg room junk = .ok keys) (id : UInt64) :
    keyIn cfg keys id =
      formatKey cfg.keysize (id.toNat % cfg.records + 1) := by
  have hrecords := hfits.records
  have hprint : printKeys cfg junk cfg.records = .ok keys := by
    unfold makeKeys at hkeys
    split at hkeys
    · cases hkeys
    · split at hkeys
      · cases hkeys
      · exact hkeys
  obtain ⟨hin, hall⟩ := printKeys_ok hfits (Nat.le_refl _) hprint
  have hslot := hfits.slot_lt id
  have hmod : id % UInt64.ofNat cfg.records =
      UInt64.ofNat (id.toNat % cfg.records) := by
    have hcount : (UInt64.ofNat cfg.records).toNat = cfg.records :=
      UInt64.toNat_ofNat_of_lt' hrecords.2
    have hrest : id.toNat % cfg.records < UInt64.size :=
      Nat.lt_trans hslot hrecords.2
    rw [← UInt64.toNat_inj, UInt64.toNat_mod, hcount,
      UInt64.toNat_ofNat_of_lt' hrest]
  have hlt := (keysSize cfg).toNat_lt
  have hbelow := Nat.mul_le_mul_right (cfg.keysize + 1)
    (Nat.le_of_lt hslot)
  rw [keyIn, hmod, hfits.offset_eq (by omega) (by omega), hfits.keylen_eq]
  exact hall _ hslot

/-- The array is made whenever it fits. -/
theorem makeKeys_returns (hfits : cfg.Fits) {room : Nat}
    (hroom : cfg.records * (cfg.keysize + 1) ≤ room)
    (hwrap : cfg.records * (cfg.keysize + 1) < 2 ^ 64)
    (junk : Nat → UInt8) : ∃ keys, makeKeys cfg room junk = .ok keys := by
  have hsize : (keysSize cfg).toNat = cfg.records * (cfg.keysize + 1) := by
    rw [hfits.keysSize_eq, Nat.mod_eq_of_lt hwrap]
  have hprint : ∀ n, n ≤ cfg.records →
      ∃ keys, printKeys cfg junk n = .ok keys := by
    intro n
    induction n with
    | zero => exact fun _ => ⟨junk, rfl⟩
    | succ n ih =>
        intro hn
        obtain ⟨mem, hmem⟩ := ih (by omega)
        have hrecords := hfits.records
        have hend := Nat.mul_le_mul_right (cfg.keysize + 1) hn
        rw [Nat.succ_mul] at hend
        have hprev : UInt64.ofNat (n + 1) - 1 = UInt64.ofNat n := by
          rw [UInt64.ofNat_add]
          exact UInt64.add_sub_cancel _ _
        have hbuf := hfits.offset_eq (j := n) (by omega) (by omega)
        rw [printKeys, hmem]
        show ∃ keys, printKey cfg mem (UInt64.ofNat (n + 1)) = .ok keys
        simp only [printKey, hprev, hbuf, hfits.stride_eq]
        rw [if_neg (by omega)]
        exact ⟨_, rfl⟩
  have hfmt : ¬ keyfmtSize ≤ (keyfmt (UInt64.ofNat cfg.keysize)).length := by
    have hdigits := (Nat.length_toDigits_le_iff (b := 10) (k := 20)
      (by decide) (by decide)).mpr (Nat.lt_trans
        (UInt64.ofNat cfg.keysize).toNat_lt (by decide))
    simp only [keyfmt, keyfmtSize, List.length_append, List.length_cons,
      List.length_nil]
    omega
  rw [makeKeys, if_neg hfmt, if_neg (by omega)]
  exact hprint _ (Nat.le_refl _)

end Table

end Memcache

end Mutated.Ports
