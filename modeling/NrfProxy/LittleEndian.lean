import Mathlib.Tactic

/-!
# Words of four bytes

A 32-bit word and its bytes, lowest first. The word is put together by shifts
and disjunctions, which for bytes is the sum of the shifted bytes; both ways
round the conversion is arithmetic on that sum.
-/

set_option autoImplicit false

namespace NrfProxy.LittleEndian

def ofBytes (a b c d : UInt8) : UInt32 :=
  a.toUInt32 ||| (b.toUInt32 <<< 8) ||| (c.toUInt32 <<< 16) ||| (d.toUInt32 <<< 24)

def toBytes (w : UInt32) : List UInt8 :=
  [w.toUInt8, (w >>> 8).toUInt8, (w >>> 16).toUInt8, (w >>> 24).toUInt8]

theorem or_shift {n k : ℕ} (m : ℕ) (h : n < 2^k) : n ||| m <<< k = n+2^k*m := by
  rw [Nat.or_comm, Nat.shiftLeft_eq, Nat.mul_comm, ← Nat.two_pow_add_eq_or_of_lt h, Nat.add_comm]

theorem ofBytes_toNat (a b c d : UInt8) :
    (ofBytes a b c d).toNat = a.toNat+2^8*b.toNat+2^16*c.toNat+2^24*d.toNat := by
  have ha := a.toNat_lt
  have hb := b.toNat_lt
  have hc := c.toNat_lt
  have hd := d.toNat_lt
  have hshift (x : UInt8) (k : ℕ) (hk : k ≤ 24) : x.toNat <<< k % 2^32 = x.toNat <<< k := by
    apply Nat.mod_eq_of_lt
    rw [Nat.shiftLeft_eq]
    calc x.toNat*2^k ≤ x.toNat*2^24 := Nat.mul_le_mul_left _ (Nat.pow_le_pow_right (by decide) hk)
      _ < 2^32 := by
        have := x.toNat_lt
        omega
  have h : (ofBytes a b c d).toNat =
      a.toNat ||| b.toNat <<< 8 ||| c.toNat <<< 16 ||| d.toNat <<< 24 := by
    rw [← hshift b 8 (by decide), ← hshift c 16 (by decide), ← hshift d 24 (by decide)]
    simp only [ofBytes, UInt32.toNat_or, UInt32.toNat_shiftLeft, UInt8.toNat_toUInt32]
    rfl
  have hab : a.toNat+2^8*b.toNat < 2^16 := by omega
  have habc : a.toNat+2^8*b.toNat+2^16*c.toNat < 2^24 := by omega
  rw [h, or_shift _ ha, or_shift _ hab, or_shift _ habc]

theorem toBytes_ofBytes (a b c d : UInt8) : toBytes (ofBytes a b c d) = [a,b,c,d] := by
  have ha := a.toNat_lt
  have hb := b.toNat_lt
  have hc := c.toNat_lt
  have hd := d.toNat_lt
  have hw := ofBytes_toNat a b c d
  simp only [toBytes, List.cons.injEq, and_true, ← UInt8.toNat_inj, UInt32.toNat_toUInt8,
    UInt32.toNat_shiftRight, Nat.shiftRight_eq_div_pow, hw]
  refine ⟨?_,?_,?_,?_⟩
  · omega
  · show _/2^8%2^8 = _
    omega
  · show _/2^16%2^8 = _
    omega
  · show _/2^24%2^8 = _
    omega

theorem ofBytes_toBytes (w : UInt32) :
    ofBytes w.toUInt8 (w >>> 8).toUInt8 (w >>> 16).toUInt8 (w >>> 24).toUInt8 = w := by
  have hw := w.toNat_lt
  have h8 : (w >>> 8).toNat = w.toNat/2^8 := Nat.shiftRight_eq_div_pow _ _
  have h16 : (w >>> 16).toNat = w.toNat/2^16 := Nat.shiftRight_eq_div_pow _ _
  have h24 : (w >>> 24).toNat = w.toNat/2^24 := Nat.shiftRight_eq_div_pow _ _
  rw [← UInt32.toNat_inj, ofBytes_toNat]
  simp only [UInt32.toNat_toUInt8, h8, h16, h24]
  omega

end NrfProxy.LittleEndian
