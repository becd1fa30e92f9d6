import CcniServer.Wire.Packer
import CcniServer.Wire.Parser

/-!
The two ends of the wire. The packer narrows the length of a text to sixteen bits, the parser
accepts fifteen: a text comes through exactly when fifteen bits hold its length.
-/
namespace CcniServer

/-- A frame on its way to a fresh parser: the kernel delivers it in any pieces, and the
schedule is long enough to deliver all of it. -/
structure Delivers (wire : List UInt8) (s : Sock) : Prop where
  inp : s.inp = wire
  alive : s.Alive
  enough : wire.length ≤ Sock.deliveries s.recvs

/-- The parser holds the message: its header has the four values and its body is the text. -/
structure Decoded (p : CCNIMsgParser) (dump : List UInt8) (seq udata : UInt32)
    (k1 k2 : UInt64) : Prop where
  state : p.state = .st_rdok
  seq : p.header.seq = seq
  udata : p.header.udata = udata
  secret1 : p.header.secret1 = k1
  secret2 : p.header.secret2 = k2
  data : p.data = some dump

namespace CCNIMsgPacker

/-- A parser that has read the whole frame of a packer, or stopped in front of the rest. -/
theorem parsed_frame {p : CCNIMsgPacker} (hf : p.Filled) {q : CCNIMsgParser}
    {got rest : List UInt8} (hgot : p.frame = got ++ rest) (hq : CCNIMsgParser.Parsed got q)
    (hend : q.Reading → rest = []) :
    (p.hd.verify = true ∧ q.state = .st_rdok ∧ q.header = p.hd ∧ q.data = some p.body) ∨
    (q.state ≠ .st_rdok ∧ (p.hd.verify = false ∨ p.hd.datalen.toNat = 0)) := by
  have hlen := length_frame hf
  have hall : q.Reading → got = p.frame := fun hr => by
    rw [hgot,hend hr,List.append_nil]
  have hstream : p.hd.toBytes ++ p.body ++ [] = got ++ rest := by
    rw [List.append_nil,← hgot,frame]
  cases hq.stands hf hstream with
  | inHeader hstate hlt =>
    rw [hall (.inl hstate)] at hlt
    omega
  | refused hstate hbad =>
    right
    refine ⟨?_,.inl hbad⟩
    rw [hstate]
    exact CCNIMsgParser.State.noConfusion
  | noBody hstate hzero =>
    right
    refine ⟨?_,.inr hzero⟩
    rw [hstate]
    exact CCNIMsgParser.State.noConfusion
  | inBody hstate hlt =>
    rw [hall (.inr hstate)] at hlt
    omega
  | complete hstate hgood hheader hdata hrest => exact .inl ⟨hgood,hstate,hheader,hdata⟩

/-- The header of a packer passes the parser's check exactly when fifteen bits hold the length
of the body. -/
theorem verify_pack (dump : Option (List UInt8)) (seq udata : UInt32) (k1 k2 : UInt64) :
    (new.pack dump seq udata k1 k2).2.hd.verify = true ↔
      (new.pack dump seq udata k1 k2).2.hd.datalen.toNat < CCNI_MAX_LEN := by
  rw [CCNI_HEADER.verify,decide_eq_true_eq]
  exact ⟨fun h => h.2.2.2,fun h => ⟨rfl,rfl,rfl,h⟩⟩

end CCNIMsgPacker

open CCNIMsgPacker

/-- What a fresh parser makes of the frame of a text: the part of the text that the header's
length covers, unless the parser takes no text of that length. -/
theorem reads_frame (dump : List UInt8) (seq udata : UInt32) (k1 k2 : UInt64) {s : Sock}
    (hs : Delivers (new.pack (some dump) seq udata k1 k2).2.frame s) {n : ℕ}
    (hn : s.recvs.length ≤ n) :
    (dump.length % 65536 < CCNI_MAX_LEN ∧ Decoded (CCNIMsgParser.reads n CCNIMsgParser.new s).1
      (dump.take (dump.length % 65536)) seq udata k1 k2) ∨
    ((CCNIMsgParser.reads n CCNIMsgParser.new s).1.state ≠ .st_rdok ∧
      (CCNI_MAX_LEN ≤ dump.length % 65536 ∨ dump.length % 65536 = 0)) := by
  have hfilled : (new.pack (some dump) seq udata k1 k2).2.Filled := pack_filled _ _ _ _ _ _
  have hlen : (new.pack (some dump) seq udata k1 k2).2.hd.datalen.toNat = dump.length % 65536 :=
    pack_datalen _ _ _ _ _ _
  have hbody : (new.pack (some dump) seq udata k1 k2).2.body = dump.take (dump.length % 65536) :=
    congrArg (dump.take ·) hlen
  have hverify := verify_pack (some dump) seq udata k1 k2
  rw [hlen] at hverify
  obtain ⟨got,hgot,hparsed,hend⟩ := CCNIMsgParser.reads_parsed hs.alive CCNIMsgParser.parsed_new
    (hs.inp ▸ hs.enough) hn
  rw [hs.inp] at hgot
  rcases parsed_frame hfilled hgot hparsed hend with
    ⟨hgood,hstate,hheader,hdata⟩ | ⟨hstate,hbad⟩
  · left
    refine ⟨hverify.mp hgood,hstate,?_,?_,?_,?_,hdata.trans (congrArg some hbody)⟩ <;>
      exact congrArg _ hheader
  · right
    refine ⟨hstate,?_⟩
    rcases hbad with hbad | hzero
    · left
      rw [← Nat.not_lt]
      intro hlt
      exact Bool.false_ne_true (hbad.symm.trans (hverify.mpr hlt))
    · right
      exact hlen ▸ hzero

/-- A text below the parser's bound comes through as a whole. -/
theorem decoded_of_lt {dump : List UInt8} (hdump : dump ≠ []) (seq udata : UInt32)
    (k1 k2 : UInt64) {s : Sock} (hs : Delivers (new.pack (some dump) seq udata k1 k2).2.frame s)
    {n : ℕ} (hn : s.recvs.length ≤ n) (hlt : dump.length < CCNI_MAX_LEN) :
    Decoded (CCNIMsgParser.reads n CCNIMsgParser.new s).1 dump seq udata k1 k2 := by
  have hmax : CCNI_MAX_LEN = 32768 := rfl
  have hpos : 0 < dump.length := List.length_pos_of_ne_nil hdump
  have hsame : dump.length % 65536 = dump.length := Nat.mod_eq_of_lt (by omega)
  rcases reads_frame dump seq udata k1 k2 hs hn with ⟨hshort,hcut⟩ | ⟨hstate,hbad⟩
  · rw [hsame,List.take_length] at hcut
    exact hcut
  · omega

/-- Decoding undoes encoding exactly for the texts below the parser's bound. -/
theorem decoded_iff (dump : List UInt8) (hdump : dump ≠ []) (seq udata : UInt32)
    (k1 k2 : UInt64) (s : Sock)
    (hs : Delivers (new.pack (some dump) seq udata k1 k2).2.frame s) (n : ℕ)
    (hn : s.recvs.length ≤ n) :
    Decoded (CCNIMsgParser.reads n CCNIMsgParser.new s).1 dump seq udata k1 k2 ↔
      dump.length < CCNI_MAX_LEN := by
  have hmax : CCNI_MAX_LEN = 32768 := rfl
  have hpos : 0 < dump.length := List.length_pos_of_ne_nil hdump
  refine ⟨fun hdecoded => ?_,decoded_of_lt hdump seq udata k1 k2 hs hn⟩
  rcases reads_frame dump seq udata k1 k2 hs hn with ⟨hshort,hcut⟩ | ⟨hstate,hbad⟩
  · have hwhole : dump.take (dump.length % 65536) = dump :=
      Option.some.inj (hcut.data.symm.trans hdecoded.data)
    have hsame := congrArg List.length hwhole
    rw [List.length_take] at hsame
    omega
  · exact absurd hdecoded.state hstate

/-- A peer whose bytes arrive one by one. -/
def Sock.stream (wire : List UInt8) : Sock where
  inp := wire
  recvs := List.replicate wire.length (.deliver 1)
  out := []
  sends := []

theorem delivers_stream (wire : List UInt8) : Delivers wire (Sock.stream wire) := by
  refine ⟨rfl,fun o ho => ?_,?_⟩
  · rw [List.eq_of_mem_replicate ho]
    exact ⟨nofun,nofun⟩
  · simp [Sock.stream,Sock.deliveries,List.countP_replicate]

theorem length_recvs_stream (wire : List UInt8) : (Sock.stream wire).recvs.length = wire.length :=
  List.length_replicate

/-- The empty document `<a/>` comes through. -/
theorem decoded_short :
    Decoded (CCNIMsgParser.reads 36 CCNIMsgParser.new
      (Sock.stream (new.pack (some [60,97,47,62]) 7 8 9 10).2.frame)).1 [60,97,47,62] 7 8 9 10 :=
  (decoded_iff [60,97,47,62] (List.cons_ne_nil _ _) 7 8 9 10 _ (delivers_stream _) 36
    (length_recvs_stream _).le).mpr (by decide)

def blanks : List UInt8 := List.replicate 32768 32

/-- A text of 32 KiB, which the packer accepts, is refused by the parser. -/
theorem max_len_refused :
    blanks ≠ [] ∧ (new.pack (some blanks) 7 8 9 10).1 = true ∧
    Delivers (new.pack (some blanks) 7 8 9 10).2.frame
      (Sock.stream (new.pack (some blanks) 7 8 9 10).2.frame) ∧
    ¬ Decoded (CCNIMsgParser.reads (new.pack (some blanks) 7 8 9 10).2.frame.length
      CCNIMsgParser.new (Sock.stream (new.pack (some blanks) 7 8 9 10).2.frame)).1
      blanks 7 8 9 10 := by
  have hlen : blanks.length = 32768 := List.length_replicate
  have hs := delivers_stream (new.pack (some blanks) 7 8 9 10).2.frame
  refine ⟨?_,rfl,hs,fun hdecoded => ?_⟩
  · rw [← List.length_pos_iff_ne_nil,hlen]
    exact Nat.succ_pos _
  · rcases reads_frame blanks 7 8 9 10 hs (length_recvs_stream _).le with ⟨hshort,-⟩ | ⟨hstate,-⟩
    · rw [hlen] at hshort
      exact absurd hshort (by decide)
    · exact hstate hdecoded.state

end CcniServer
