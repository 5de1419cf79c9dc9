import Mathlib.Tactic

/-!
# Buffers of bytes

Arrays of a fixed length, and the C library's calls which write to them. A call
which would write behind the end has no result, so that a program over buffers
shows by having one that it stays inside them.
-/

set_option autoImplicit false

namespace NrfProxy.ByteBuffer

abbrev Buffer (n : ℕ) := {bytes : List UInt8 // bytes.length = n}

def memset (n : ℕ) (b : UInt8) : Buffer n := ⟨List.replicate n b,List.length_replicate⟩

/-- `memcpy` of `src` to the place `off` of `dst`. -/
def memcpy {n : ℕ} (dst : Buffer n) (off : ℕ) (src : List UInt8) : Option (Buffer n) :=
  if h : off+src.length ≤ n then
    some ⟨dst.1.take off++src++dst.1.drop (off+src.length),by
      have := dst.2
      simp only [List.length_append, List.length_take, List.length_drop]
      omega⟩
  else none

/-- A text, and zero behind it to the end. -/
def padded {n : ℕ} (text : List UInt8) (h : text.length ≤ n) : Buffer n :=
  ⟨text++List.replicate (n-text.length) 0,by
    simp only [List.length_append, List.length_replicate]
    omega⟩

def cString (s : List UInt8) : List UInt8 := s.takeWhile (fun b => b != 0)

def strlen (s : List UInt8) : ℕ := (cString s).length

/-- `snprintf` of `text` to the place `off`, into `size` bytes with the terminator. -/
def snprintf {n : ℕ} (dst : Buffer n) (off size : ℕ) (text : List UInt8) : Option (Buffer n) :=
  if size = 0 then some dst else memcpy dst off (text.take (size-1)++[0])

def hexDigit (n : ℕ) : UInt8 :=
  if n < 10 then UInt8.ofNat (0x30+n) else UInt8.ofNat (0x41+(n-10))

def hexByte (b : UInt8) : List UInt8 := [hexDigit (b.toNat/16),hexDigit (b.toNat%16)]

example : hexByte 0x3f = [0x33, 0x46] := by decide

variable {n : ℕ} {dst c : Buffer n} {off size : ℕ} {src text more : List UInt8}

theorem memcpy_some : memcpy dst off src = some c ↔
    off+src.length ≤ n ∧ c.1 = dst.1.take off++src++dst.1.drop (off+src.length) := by
  unfold memcpy
  split
  · rename_i h
    simp only [Option.some.injEq, Subtype.ext_iff, h, true_and]
    exact eq_comm
  · rename_i h
    simp [h]

theorem memcpy_whole (h : src.length = n) : memcpy dst 0 src = some ⟨src,h⟩ := by
  apply memcpy_some.mpr
  have hd := dst.2
  refine ⟨by omega,?_⟩
  simp [List.drop_of_length_le (show dst.1.length ≤ src.length by omega)]

theorem memcpy_memset (h : src.length ≤ n) :
    memcpy (memset n 0) 0 src = some (padded src h) := by
  apply memcpy_some.mpr
  refine ⟨by omega,?_⟩
  simp [memset, padded]

theorem snprintf_padded (h : text.length ≤ n) (hm : (text++more).length < n) :
    snprintf (padded (n := n) text h) text.length (more.length+1) more =
      some (padded (text++more) hm.le) := by
  rw [snprintf, if_neg (Nat.succ_ne_zero _), Nat.add_sub_cancel, List.take_length]
  rw [List.length_append] at hm
  apply memcpy_some.mpr
  refine ⟨by simp only [List.length_append, List.length_singleton]; omega,?_⟩
  simp only [padded]
  have hdrop : (text++List.replicate (n-text.length) 0).drop (text.length+(more++[0]).length) =
      List.replicate (n-(text++more).length-1) (0 : UInt8) := by
    rw [← List.drop_drop, List.drop_left, List.drop_replicate]
    simp only [List.length_append, List.length_singleton]
    congr 1
    omega
  -- the terminator is the first of the clear bytes
  have hclear : List.replicate (n-(text++more).length) (0 : UInt8) =
      0::List.replicate (n-(text++more).length-1) 0 := by
    rw [← List.replicate_succ]
    congr 1
    simp only [List.length_append]
    omega
  rw [List.take_left, hdrop, hclear]
  simp

theorem take_cString {s : List UInt8} {k : ℕ} (h : k ≤ strlen s) :
    s.take k = (cString s).take k := by
  obtain ⟨rest,hrest⟩ := List.takeWhile_prefix (l := s) (fun b => b != 0)
  conv_lhs => rw [← hrest]
  exact List.take_append_of_le_length h

theorem hexDigit_inj : ∀ a < 16, ∀ b < 16, hexDigit a = hexDigit b → a = b := by decide

theorem hexByte_inj {a b : UInt8} (h : hexByte a = hexByte b) : a = b := by
  have ha := a.toNat_lt
  have hb := b.toNat_lt
  simp only [hexByte, List.cons.injEq, and_true] at h
  have hhigh := hexDigit_inj _ (by omega) _ (by omega) h.1
  have hlow := hexDigit_inj _ (by omega) _ (by omega) h.2
  apply UInt8.toNat_inj.mp
  omega

end NrfProxy.ByteBuffer
