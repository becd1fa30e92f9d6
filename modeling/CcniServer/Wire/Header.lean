import CcniServer.Lib.Bytes

/-! The header of a frame and its 32 bytes. -/
namespace CcniServer

def CCNI_MAX_LEN : ℕ := 1024*32

structure CCNI_HEADER where
  hdlen : UInt8
  ver_major : UInt8
  ver_minor : UInt8
  type : UInt8
  datalen : UInt16
  seq : UInt32
  udata : UInt32
  secret1 : UInt64
  secret2 : UInt64
  reserved : UInt8 × UInt8
  deriving DecidableEq

namespace CCNI_HEADER
open Bytes

/-- `sizeof(CCNI_HEADER)` of the packed structure. -/
def size : ℕ := 32

/-- The constructor. -/
def new : CCNI_HEADER where
  hdlen := 32
  ver_major := 1
  ver_minor := 0
  type := 0
  datalen := 0
  seq := 0
  udata := 0
  secret1 := 0
  secret2 := 0
  reserved := (0,0)

def verify (h : CCNI_HEADER) : Bool :=
  h.hdlen = 32 ∧ h.ver_major = 1 ∧ h.ver_minor = 0 ∧ h.datalen.toNat < CCNI_MAX_LEN

/-- The memory of a header, multi-byte fields with the least significant byte first. -/
def toBytes (h : CCNI_HEADER) : List UInt8 :=
  [h.hdlen,h.ver_major,h.ver_minor,h.type] ++ (le 2 h.datalen.toNat ++
    (le 4 h.seq.toNat ++ (le 4 h.udata.toNat ++ (le 8 h.secret1.toNat ++
      (le 8 h.secret2.toNat ++ [h.reserved.1,h.reserved.2])))))

def byteAt (bs : List UInt8) (i : ℕ) : UInt8 := bs.getD i 0

/-- The header that a piece of memory holds. -/
def ofBytes (bs : List UInt8) : CCNI_HEADER where
  hdlen := byteAt bs 0
  ver_major := byteAt bs 1
  ver_minor := byteAt bs 2
  type := byteAt bs 3
  datalen := UInt16.ofNat (fieldAt bs 4 2)
  seq := UInt32.ofNat (fieldAt bs 6 4)
  udata := UInt32.ofNat (fieldAt bs 10 4)
  secret1 := UInt64.ofNat (fieldAt bs 14 8)
  secret2 := UInt64.ofNat (fieldAt bs 22 8)
  reserved := (byteAt bs 30,byteAt bs 31)

@[simp] theorem length_toBytes (h : CCNI_HEADER) : h.toBytes.length = size := by
  simp [toBytes,size]

/-- The memory of a header holds the header. -/
theorem ofBytes_toBytes (h : CCNI_HEADER) : ofBytes h.toBytes = h := by
  have hdatalen : fieldAt h.toBytes 4 2 = h.datalen.toNat % 256^2 := fieldAt_le 2 _ _
  have hseq : fieldAt h.toBytes 6 4 = h.seq.toNat % 256^4 :=
    (fieldAt_skip 2 h.datalen.toNat 0 4 _).trans (fieldAt_le 4 _ _)
  have hudata : fieldAt h.toBytes 10 4 = h.udata.toNat % 256^4 :=
    (fieldAt_skip 2 h.datalen.toNat 4 4 _).trans
      ((fieldAt_skip 4 h.seq.toNat 0 4 _).trans (fieldAt_le 4 _ _))
  have hsecret1 : fieldAt h.toBytes 14 8 = h.secret1.toNat % 256^8 :=
    (fieldAt_skip 2 h.datalen.toNat 8 8 _).trans ((fieldAt_skip 4 h.seq.toNat 4 8 _).trans
      ((fieldAt_skip 4 h.udata.toNat 0 8 _).trans (fieldAt_le 8 _ _)))
  have hsecret2 : fieldAt h.toBytes 22 8 = h.secret2.toNat % 256^8 :=
    (fieldAt_skip 2 h.datalen.toNat 16 8 _).trans ((fieldAt_skip 4 h.seq.toNat 12 8 _).trans
      ((fieldAt_skip 4 h.udata.toNat 8 8 _).trans
        ((fieldAt_skip 8 h.secret1.toNat 0 8 _).trans (fieldAt_le 8 _ _))))
  have h2 : h.datalen.toNat % 256^2 = h.datalen.toNat := Nat.mod_eq_of_lt h.datalen.toNat_lt
  have hs : h.seq.toNat % 256^4 = h.seq.toNat := Nat.mod_eq_of_lt h.seq.toNat_lt
  have hu : h.udata.toNat % 256^4 = h.udata.toNat := Nat.mod_eq_of_lt h.udata.toNat_lt
  have h8 : ∀ x : UInt64, x.toNat % 256^8 = x.toNat := fun x => Nat.mod_eq_of_lt x.toNat_lt
  rw [ofBytes,hdatalen,hseq,hudata,hsecret1,hsecret2,h2,hs,hu,h8,h8]
  simp only [UInt16.ofNat_toNat,UInt32.ofNat_toNat,UInt64.ofNat_toNat]
  rfl

end CCNI_HEADER
end CcniServer
