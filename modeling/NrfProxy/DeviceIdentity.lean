import NrfProxy.ByteBuffer

/-!
# The identity of a unit

`proxy_identity_derive` makes a name, an address and an advertised id from the
hardware id of the chip. The caller's record keeps what is not written to it;
the name is written to its last byte. The address loses two bits of the id,
which the suffix of the name has.
-/

set_option autoImplicit false

namespace NrfProxy.DeviceIdentity
open NrfProxy.ByteBuffer

def proxyAddrLen : ℕ := 6

def proxyMfgIdLen : ℕ := 4

def proxyDeviceNameMax : ℕ := 20

def proxyHwidMinLen : ℤ := 6

def addrStaticMsbs : UInt8 := 0xc0

/-- The size of `"-XXXX"`, with its terminator. -/
def suffixSize : ℕ := 6

structure Identity where
  addr : Buffer proxyAddrLen
  name : Buffer proxyDeviceNameMax
  mfgId : Buffer proxyMfgIdLen
  addrValid : Bool
  deriving DecidableEq

/-- `"-%02X%02X"` of the top id bytes. -/
def suffix (hwid : ℕ → UInt8) : List UInt8 := 0x2d::(hexByte (hwid 5)++hexByte (hwid 4))

/-- `out->addr[PROXY_ADDR_LEN - 1] |= ADDR_STATIC_MSBS`. -/
def setStatic (addr : Buffer proxyAddrLen) : Buffer proxyAddrLen :=
  ⟨addr.1.modify (proxyAddrLen-1) (fun b => b ||| addrStaticMsbs),by simp [addr.2]⟩

/-- `hwid` is NULL or the memory it points to, and `hwidLen` what
`hwinfo_get_device_id` returned. -/
def proxyIdentityDerive (baseName : List UInt8) (hwid : Option (ℕ → UInt8)) (hwidLen : ℤ)
    (out : Identity) : Option Identity :=
  let baseLen :=
    if proxyDeviceNameMax-1 < strlen baseName then proxyDeviceNameMax-1 else strlen baseName
  (memcpy (memset proxyDeviceNameMax 0) 0 (baseName.take baseLen)).bind fun name =>
    let out := { out with name, addrValid := false }
    match hwid with
    | none => some out
    | some hwid =>
      if hwidLen < proxyHwidMinLen then some out
      else
        (memcpy out.addr 0 ((List.range proxyAddrLen).map hwid)).bind fun addr =>
          (memcpy out.mfgId 0 ((List.range proxyMfgIdLen).map hwid)).bind fun mfgId =>
            let out := { out with addr := setStatic addr, mfgId, addrValid := true }
            if baseLen+suffixSize ≤ proxyDeviceNameMax then
              (snprintf out.name baseLen suffixSize (suffix hwid)).map fun name =>
                { out with name }
            else some out

/-- There is an id, and it is long enough for an address. -/
def idOf (hwid : Option (ℕ → UInt8)) (hwidLen : ℤ) : Option (ℕ → UInt8) :=
  if proxyHwidMinLen ≤ hwidLen then hwid else none

def base (baseName : List UInt8) : List UInt8 := (cString baseName).take (proxyDeviceNameMax-1)

def nameOf (baseName : List UInt8) (id : Option (ℕ → UInt8)) : List UInt8 :=
  base baseName++
    match id with
    | some hwid => if strlen baseName ≤ 14 then suffix hwid else []
    | none => []

def addrOf (hwid : ℕ → UInt8) : List UInt8 :=
  [hwid 0, hwid 1, hwid 2, hwid 3, hwid 4, hwid 5 ||| addrStaticMsbs]

def mfgIdOf (hwid : ℕ → UInt8) : List UInt8 := [hwid 0, hwid 1, hwid 2, hwid 3]

/-- What the header says of a derivation into `out`. -/
structure Derived (baseName : List UInt8) (id : Option (ℕ → UInt8)) (out res : Identity) : Prop where
  terminated : (nameOf baseName id).length < proxyDeviceNameMax
  name : res.name.1 =
    nameOf baseName id++List.replicate (proxyDeviceNameMax-(nameOf baseName id).length) 0
  addrValid : res.addrValid = id.isSome
  valid : ∀ hwid, id = some hwid → res.addr.1 = addrOf hwid ∧ res.mfgId.1 = mfgIdOf hwid
  invalid : id = none → res.addr = out.addr ∧ res.mfgId = out.mfgId

variable {baseName : List UInt8} {hwid : ℕ → UInt8} {out res : Identity}

theorem suffix_length (hwid : ℕ → UInt8) : (suffix hwid).length+1 = suffixSize := rfl

theorem base_length (baseName : List UInt8) :
    (base baseName).length = min (proxyDeviceNameMax-1) (strlen baseName) := List.length_take

theorem base_cut (baseName : List UInt8) :
    (if proxyDeviceNameMax-1 < strlen baseName then proxyDeviceNameMax-1 else strlen baseName) =
      (base baseName).length := by
  rw [base_length]
  split <;> omega

theorem take_base (baseName : List UInt8) :
    baseName.take (base baseName).length = base baseName := by
  have hlen := base_length baseName
  rw [take_cString (by omega), hlen, base, ← List.take_take,
    List.take_of_length_le (show (cString baseName).length ≤ strlen baseName from le_rfl)]

theorem base_fits (baseName : List UInt8) : (base baseName).length ≤ proxyDeviceNameMax := by
  have hlen := base_length baseName
  omega

theorem derive_invalid {hwidLen : ℤ} {id : Option (ℕ → UInt8)} (h : idOf id hwidLen = none) :
    proxyIdentityDerive baseName id hwidLen out =
      some { out with name := padded (base baseName) (base_fits baseName), addrValid := false } := by
  simp only [proxyIdentityDerive, base_cut, take_base, memcpy_memset (base_fits baseName), Option.bind_some]
  cases id with
  | none => rfl
  | some hwid =>
    have hl : hwidLen < proxyHwidMinLen := by simpa [idOf] using h
    simp [hl]

theorem nameOf_lt (baseName : List UInt8) (id : Option (ℕ → UInt8)) :
    (nameOf baseName id).length < proxyDeviceNameMax := by
  have hlen := base_length baseName
  have h20 : proxyDeviceNameMax = 20 := rfl
  unfold nameOf
  rw [List.length_append]
  cases id with
  | none =>
    simp only [List.length_nil]
    omega
  | some hwid =>
    have hsuffix : (suffix hwid).length = 5 := rfl
    dsimp only
    split
    · omega
    · simp only [List.length_nil]
      omega

theorem derive_valid (baseName : List UInt8) (out : Identity) {hwidLen : ℤ}
    {id : Option (ℕ → UInt8)} (h : idOf id hwidLen = some hwid) :
    ∃ res, proxyIdentityDerive baseName id hwidLen out = some res ∧
      res.name = padded (nameOf baseName (some hwid)) (nameOf_lt baseName (some hwid)).le ∧
      res.addr.1 = addrOf hwid ∧ res.mfgId.1 = mfgIdOf hwid ∧ res.addrValid = true := by
  obtain ⟨hl,rfl⟩ : proxyHwidMinLen ≤ hwidLen ∧ id = some hwid := by simpa [idOf] using h
  have hlen := base_length baseName
  have h20 : proxyDeviceNameMax = 20 := rfl
  have h6 : suffixSize = 6 := rfl
  have haddr : memcpy out.addr 0 ((List.range proxyAddrLen).map hwid) = some ⟨_,rfl⟩ :=
    memcpy_whole rfl
  have hmfg : memcpy out.mfgId 0 ((List.range proxyMfgIdLen).map hwid) = some ⟨_,rfl⟩ :=
    memcpy_whole rfl
  have hlt := nameOf_lt baseName (some hwid)
  simp only [proxyIdentityDerive, base_cut, take_base, memcpy_memset (base_fits baseName),
    Option.bind_some, haddr, hmfg, if_neg (not_lt.mpr hl)]
  by_cases hroom : strlen baseName ≤ 14
  · have hname : nameOf baseName (some hwid) = base baseName++suffix hwid := by
      simp [nameOf, hroom]
    rw [hname] at hlt
    rw [if_pos (by omega), ← suffix_length hwid, snprintf_padded (base_fits baseName) hlt]
    exact ⟨_,rfl,Subtype.ext (by simp only [padded, hname]),rfl,rfl,rfl⟩
  · have hname : nameOf baseName (some hwid) = base baseName := by simp [nameOf, hroom]
    rw [if_neg (by omega)]
    exact ⟨_,rfl,Subtype.ext (by simp only [padded, hname]),rfl,rfl,rfl⟩

/-- Whatever the names, ids and lengths, the derivation stays inside its buffers
and leaves what the header says; with an id, whatever was in the record before. -/
theorem identity_derived (baseName : List UInt8) (hwid : Option (ℕ → UInt8)) (hwidLen : ℤ)
    (out : Identity) :
    (∃ res, proxyIdentityDerive baseName hwid hwidLen out = some res ∧
      Derived baseName (idOf hwid hwidLen) out res) ∧
    (idOf hwid hwidLen ≠ none → ∀ out', proxyIdentityDerive baseName hwid hwidLen out' =
      proxyIdentityDerive baseName hwid hwidLen out) := by
  constructor
  · cases hid : idOf hwid hwidLen with
    | none =>
      refine ⟨_,derive_invalid hid,nameOf_lt baseName none,?_,rfl,by simp,fun _ => ⟨rfl,rfl⟩⟩
      simp [padded, nameOf]
    | some id =>
      obtain ⟨res,hres,hname,haddr,hmfg,hvalid⟩ := derive_valid baseName out hid
      refine ⟨res,hres,nameOf_lt baseName _,by rw [hname]; rfl,hvalid,?_,by simp⟩
      intro id' hid'
      obtain rfl := Option.some.inj hid'
      exact ⟨haddr,hmfg⟩
  · intro hne out'
    obtain ⟨id,hid⟩ := Option.ne_none_iff_exists'.mp hne
    obtain ⟨res,hres,hname,haddr,hmfg,hvalid⟩ := derive_valid baseName out hid
    obtain ⟨res',hres',hname',haddr',hmfg',hvalid'⟩ := derive_valid baseName out' hid
    rw [hres, hres']
    have ha : res'.addr = res.addr := Subtype.ext (haddr'.trans haddr.symm)
    have hm : res'.mfgId = res.mfgId := Subtype.ext (hmfg'.trans hmfg.symm)
    cases res
    cases res'
    simp_all

/-- The suffix has the two bytes of which the address has lost bits. -/
theorem nameOf_inj {a b : ℕ → UInt8} (h : nameOf baseName (some a) = nameOf baseName (some b))
    (hl : strlen baseName ≤ 14) : a 5 = b 5 ∧ a 4 = b 4 := by
  simp only [nameOf, hl, if_true, suffix, List.append_cancel_left_eq, List.cons.injEq, true_and] at h
  obtain ⟨h5,h4⟩ := List.append_inj h rfl
  exact ⟨hexByte_inj h5,hexByte_inj h4⟩

theorem padded_inj {n : ℕ} {a b : List UInt8} (ha : a.length ≤ n) (hb : b.length ≤ n)
    (hlen : a.length = b.length) (h : padded a ha = padded b hb) : a = b := by
  have h := congrArg Subtype.val h
  exact (List.append_inj h hlen).1

theorem addr_name_inj {a b : ℕ → UInt8} (haddr : addrOf a = addrOf b)
    (hname : nameOf baseName (some a) = nameOf baseName (some b)) (hl : strlen baseName ≤ 14) :
    ∀ i < 6, a i = b i := by
  obtain ⟨h5,h4⟩ := nameOf_inj hname hl
  simp only [addrOf, List.cons.injEq] at haddr
  obtain ⟨h0,h1,h2,h3,_⟩ := haddr
  intro i hi
  interval_cases i <;> assumption

/-- Ids of six bytes or more which differ in one of these have different
addresses or names. There are such ids with one address. -/
theorem chips_distinguishable (baseName : List UInt8) (a b : ℕ → UInt8) (aLen bLen : ℤ)
    (outA outB resA resB : Identity) (hl : strlen baseName ≤ 14) (ha : proxyHwidMinLen ≤ aLen)
    (hb : proxyHwidMinLen ≤ bLen) (hne : ∃ i < 6, a i ≠ b i)
    (hA : proxyIdentityDerive baseName (some a) aLen outA = some resA)
    (hB : proxyIdentityDerive baseName (some b) bLen outB = some resB) :
    (resA.addr ≠ resB.addr ∨ resA.name ≠ resB.name) ∧
      ∃ c d : ℕ → UInt8, (∃ i < 6, c i ≠ d i) ∧ addrOf c = addrOf d := by
  obtain ⟨res,hres,hnameA,haddrA,_⟩ := derive_valid baseName outA
    (show idOf (some a) aLen = some a from if_pos ha)
  obtain rfl := Option.some.inj (hA.symm.trans hres)
  obtain ⟨res,hres,hnameB,haddrB,_⟩ := derive_valid baseName outB
    (show idOf (some b) bLen = some b from if_pos hb)
  obtain rfl := Option.some.inj (hB.symm.trans hres)
  constructor
  · by_contra hsame
    obtain ⟨haddr,hname⟩ := not_or.mp hsame
    have haddr : addrOf a = addrOf b := by rw [← haddrA, ← haddrB, not_not.mp haddr]
    have hname : nameOf baseName (some a) = nameOf baseName (some b) := by
      apply padded_inj _ _ _ (hnameA.symm.trans ((not_not.mp hname).trans hnameB))
      simp [nameOf, hl, suffix, hexByte]
    obtain ⟨i,hi,hne⟩ := hne
    exact hne (addr_name_inj haddr hname hl i hi)
  · exact ⟨fun _ => 0,fun i => if i = 5 then addrStaticMsbs else 0,⟨5,by decide,by decide⟩,by decide⟩

def nrfProxy : List UInt8 := [0x6e, 0x72, 0x66, 0x50, 0x72, 0x6f, 0x78, 0x79]

def chip (top : UInt8) : ℕ → UInt8
  | 4 => 0x7a
  | 5 => top
  | _ => 0x11

def unit (top : UInt8) : Identity where
  addr := ⟨addrOf (chip top),rfl⟩
  name := padded (nameOf nrfProxy (some (chip top))) (nameOf_lt nrfProxy _).le
  mfgId := ⟨mfgIdOf (chip top),rfl⟩
  addrValid := true

theorem chips_distinguishable_top_bit :
    ((unit 0x3f).addr ≠ (unit 0xbf).addr ∨ (unit 0x3f).name ≠ (unit 0xbf).name) ∧
      ∃ c d : ℕ → UInt8, (∃ i < 6, c i ≠ d i) ∧ addrOf c = addrOf d :=
  chips_distinguishable nrfProxy (chip 0x3f) (chip 0xbf) 8 8 (unit 0) (unit 0) (unit 0x3f)
    (unit 0xbf) (by decide) (by decide) (by decide) ⟨5,by decide,by decide⟩ (by decide) (by decide)

end NrfProxy.DeviceIdentity
