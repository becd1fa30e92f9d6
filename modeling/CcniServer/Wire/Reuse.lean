import CcniServer.Lib.Lts
import CcniServer.Wire.Packer
import CcniServer.Wire.Parser

/-!
Message objects that are used again. `free` of a parser resets it only together with a body; what
`free` of a packer leaves in its header, `pack` overwrites.
-/
namespace CcniServer
namespace CCNIMsgParser

/-- What is done with a parser and the socket it reads from. -/
inductive Call
  | read
  | parse
  | free
  | socket (s : Sock)

/-- What a parser shows; its header counts once it is read. -/
structure View where
  state : State
  data : Option (List UInt8)
  doc : Option CXmlNode
  header : Option CCNI_HEADER

def view (p : CCNIMsgParser) : View where
  state := p.state
  data := p.data
  doc := p.doc
  header := if p.data.isSome ∨ p.state = .st_hderror then some p.header else none

variable (createFromXmlCdata : List UInt8 → Option CXmlNode)

/-- A call, and what can be seen after it: the parser, the answer of `parse` and the socket. -/
def call (x : CCNIMsgParser × Sock) (c : Call) : (CCNIMsgParser × Sock) × View × Bool × Sock :=
  let (ok,p,s) : Bool × CCNIMsgParser × Sock := match c with
    | .read => (true,x.1.read x.2)
    | .parse => ((x.1.parse createFromXmlCdata).1,(x.1.parse createFromXmlCdata).2,x.2)
    | .free => (true,x.1.free,x.2)
    | .socket s => (true,x.1,s)
  ((p,s),p.view,ok,s)

/-- A parser that calls lead to from a new one. -/
def Reached (p : CCNIMsgParser) : Prop :=
  ∃ s calls s', Lts.Run (Lts.Moves (fun x c => (call createFromXmlCdata x c).1)) (new,s) calls
    (p,s')

/-- On every stream and every schedule a parser behaves like a new one. -/
def LikeNew (p : CCNIMsgParser) : Prop := ∀ s, Lts.Like (call createFromXmlCdata) (p,s) (new,s)

/-- Nothing of the header was read, or a body was begun. -/
def Resets (p : CCNIMsgParser) : Prop := p.data ≠ none ∨ (p.state = .st_rdhd ∧ p.pos = 0)

/-- Parsers that differ in the part of the header that is still to come. -/
inductive Alike : CCNIMsgParser → CCNIMsgParser → Prop
  | same (p : CCNIMsgParser) : Alike p p
  | header {p : CCNIMsgParser} {hd : List UInt8} (hstate : p.state = .st_rdhd)
      (hdata : p.data = none) (hpos : p.pos < CCNI_HEADER.size)
      (hmem : p.hd.length = CCNI_HEADER.size) (hmem' : hd.length = CCNI_HEADER.size)
      (hfront : hd.take p.pos = p.hd.take p.pos) : Alike p { p with hd := hd }
  | failed {p : CCNIMsgParser} {hd : List UInt8} (hstate : p.state = .st_rderror)
      (hdata : p.data = none) : Alike p { p with hd := hd }

/-- The header has its size, and a parser in it is not at its end. -/
structure Sound (p : CCNIMsgParser) : Prop where
  hd : p.hd.length = CCNI_HEADER.size
  pos : p.state = .st_rdhd → p.pos < CCNI_HEADER.size

section
variable {createFromXmlCdata : List UInt8 → Option CXmlNode} {p q : CCNIMsgParser} {s : Sock}

theorem Alike.view (h : Alike p q) : p.view = q.view := by
  cases h with
  | same => rfl
  | header hstate hdata => simp [CCNIMsgParser.view,hstate,hdata]
  | failed hstate hdata => simp [CCNIMsgParser.view,hstate,hdata]

/-- The header is complete, or as far as it is there it is the same. -/
theorem Alike.readRdhd {hd : List UInt8} (hstate : p.state = .st_rdhd) (hdata : p.data = none)
    (hpos : p.pos < CCNI_HEADER.size) (hmem : p.hd.length = CCNI_HEADER.size)
    (hmem' : hd.length = CCNI_HEADER.size) (hfront : hd.take p.pos = p.hd.take p.pos) (s : Sock) :
    Alike (p._readRdhd s).1 ({ p with hd := hd }._readRdhd s).1 ∧
      (p._readRdhd s).2 = ({ p with hd := hd }._readRdhd s).2 := by
  have hlen : (p.hd.take p.pos).length = p.pos := List.length_take_of_le (by omega)
  unfold _readRdhd
  cases hread : s.read (CCNI_HEADER.size - p.pos) with
  | mk r s' =>
    cases r with
    | eagain => exact ⟨.header hstate hdata hpos hmem hmem' hfront,rfl⟩
    | error => exact ⟨.failed rfl hdata,rfl⟩
    | eof => exact ⟨.failed rfl hdata,rfl⟩
    | data bs =>
      have hle := Sock.read_length hread
      have htake : (Bytes.write hd p.pos bs).take (p.pos + bs.length) =
          (Bytes.write p.hd p.pos bs).take (p.pos + bs.length) :=
        (Bytes.take_write hfront hlen).trans (Bytes.take_write rfl hlen).symm
      have hsize : (Bytes.write p.hd p.pos bs).length = CCNI_HEADER.size :=
        (Bytes.length_write (by omega)).trans hmem
      have hsize' : (Bytes.write hd p.pos bs).length = CCNI_HEADER.size :=
        (Bytes.length_write (by omega)).trans hmem'
      by_cases hshort : bs.length < CCNI_HEADER.size - p.pos
      · simp only [if_pos hshort]
        exact ⟨.header rfl hdata (by dsimp only; omega) hsize hsize' htake,trivial⟩
      · have hend : p.pos + bs.length = CCNI_HEADER.size := by omega
        have hsame : Bytes.write hd p.pos bs = Bytes.write p.hd p.pos bs := by
          rwa [hend,List.take_of_length_le hsize.le,List.take_of_length_le hsize'.le] at htake
        simp only [if_neg hshort,hsame]
        exact ⟨.same _,trivial⟩

theorem Alike.read (h : Alike p q) (s : Sock) :
    Alike (p.read s).1 (q.read s).1 ∧ (p.read s).2 = (q.read s).2 := by
  cases h with
  | same => exact ⟨.same _,rfl⟩
  | @header hd hstate hdata hpos hmem hmem' hfront =>
    have hread : ∀ r : CCNIMsgParser, r.state = .st_rdhd → r.read s = r._readRdhd s := by
      intro r hr
      rw [CCNIMsgParser.read,hr]
    rw [hread p hstate,hread { p with hd := hd } hstate]
    exact Alike.readRdhd hstate hdata hpos hmem hmem' hfront s
  | @failed hd hstate hdata =>
    have hread : ∀ r : CCNIMsgParser, r.state = .st_rderror → r.read s = (r,s) := by
      intro r hr
      rw [CCNIMsgParser.read,hr]
    rw [hread p hstate,hread { p with hd := hd } hstate]
    exact ⟨.failed hstate hdata,rfl⟩

theorem Alike.parse (h : Alike p q) :
    Alike (p.parse createFromXmlCdata).2 (q.parse createFromXmlCdata).2 ∧
      (p.parse createFromXmlCdata).1 = (q.parse createFromXmlCdata).1 := by
  have hrefuse : ∀ r : CCNIMsgParser, r.state ≠ .st_rdok →
      r.parse createFromXmlCdata = (false,r) := by
    intro r hr
    rw [CCNIMsgParser.parse,if_pos hr]
  cases h with
  | same => exact ⟨.same _,rfl⟩
  | @header hd hstate hdata hpos hmem hmem' hfront =>
    have hne : p.state ≠ .st_rdok := by rw [hstate]; decide
    rw [hrefuse p hne,hrefuse { p with hd := hd } hne]
    exact ⟨.header hstate hdata hpos hmem hmem' hfront,rfl⟩
  | @failed hd hstate hdata =>
    have hne : p.state ≠ .st_rdok := by rw [hstate]; decide
    rw [hrefuse p hne,hrefuse { p with hd := hd } hne]
    exact ⟨.failed hstate hdata,rfl⟩

theorem free_of_none (h : p.data = none) : p.free = { p with doc := none } := by
  unfold CCNIMsgParser.free
  rw [h]

theorem free_of_some (h : p.data ≠ none) :
    p.free = { p with doc := none, data := none, pos := 0, state := .st_rdhd } := by
  obtain ⟨bs,hbs⟩ := Option.ne_none_iff_exists'.mp h
  unfold CCNIMsgParser.free
  rw [hbs]

theorem Alike.free (h : Alike p q) : Alike p.free q.free := by
  cases h with
  | same => exact .same _
  | @header hd hstate hdata hpos hmem hmem' hfront =>
    rw [free_of_none hdata,@free_of_none { p with hd := hd } hdata]
    exact @Alike.header { p with doc := none } hd hstate hdata hpos hmem hmem' hfront
  | @failed hd hstate hdata =>
    rw [free_of_none hdata,@free_of_none { p with hd := hd } hdata]
    exact @Alike.failed { p with doc := none } hd hstate hdata

/-- The parsers stay alike, and show the same. -/
theorem Alike.like (h : Alike p q) (s : Sock) :
    Lts.Like (call createFromXmlCdata) (p,s) (q,s) := by
  refine Lts.like_of_bisim (R := fun x y => Alike x.1 y.1 ∧ x.2 = y.2) ?_ ⟨h,rfl⟩
  rintro ⟨p,s⟩ ⟨q,_⟩ c ⟨h,rfl⟩
  cases c with
  | read =>
    obtain ⟨hnext,hsock⟩ := h.read s
    simp only [call,hsock,hnext.view]
    exact ⟨trivial,hnext,trivial⟩
  | parse =>
    obtain ⟨hnext,hok⟩ := @Alike.parse createFromXmlCdata _ _ h
    simp only [call,hok,hnext.view]
    exact ⟨trivial,hnext,trivial⟩
  | free =>
    simp only [call,h.free.view]
    exact ⟨trivial,h.free,trivial⟩
  | socket s' =>
    simp only [call,h.view]
    exact ⟨trivial,h,trivial⟩

/-! ### The parsers that can be reached -/

theorem readRdbd_hd (p : CCNIMsgParser) (s : Sock) : (p._readRdbd s).1.hd = p.hd := by
  unfold _readRdbd
  split
  · rfl
  · rfl
  · rfl
  · dsimp only
    split_ifs <;> rfl

theorem Sound.readRdbd (h : p.hd.length = CCNI_HEADER.size) (hstate : p.state = .st_rdbd)
    (s : Sock) : Sound (p._readRdbd s).1 :=
  ⟨(congrArg List.length (readRdbd_hd p s)).trans h,
    fun hheader => absurd hheader (readRdbd_state hstate s)⟩

theorem Sound.readRdhd (h : Sound p) (hstate : p.state = .st_rdhd) (s : Sock) :
    Sound (p._readRdhd s).1 := by
  have hpos := h.pos hstate
  unfold _readRdhd
  split
  · exact h
  · exact ⟨h.hd,State.noConfusion⟩
  · exact ⟨h.hd,State.noConfusion⟩
  · next bs s' hread =>
    have hle := Sock.read_length hread
    have hmem := h.hd
    have hsize : (Bytes.write p.hd p.pos bs).length = CCNI_HEADER.size :=
      (Bytes.length_write (by omega)).trans hmem
    dsimp only
    split_ifs with hshort hgood
    · exact ⟨hsize,fun _ => by dsimp only; omega⟩
    · exact Sound.readRdbd hsize rfl s'
    · exact ⟨hsize,State.noConfusion⟩

theorem Sound.read (h : Sound p) (s : Sock) : Sound (p.read s).1 := by
  unfold CCNIMsgParser.read
  split
  · next hstate => exact h.readRdhd hstate s
  · next hstate => exact Sound.readRdbd h.hd hstate s
  · exact h
  · exact h
  · exact h

theorem Sound.free (h : Sound p) : Sound p.free := by
  unfold CCNIMsgParser.free
  split
  · exact ⟨h.hd,h.pos⟩
  · exact ⟨h.hd,fun _ => Nat.succ_pos 31⟩

theorem Reached.sound (h : Reached createFromXmlCdata p) : Sound p := by
  obtain ⟨s,calls,s',hrun⟩ := h
  refine hrun.invariant (P := fun x => Sound x.1) ?_ ?_
  · rintro ⟨p,s⟩ c _ h rfl
    cases c with
    | read => exact h.read s
    | parse =>
      obtain ⟨doc,hdoc⟩ := parse_snd createFromXmlCdata p
      change Sound (p.parse createFromXmlCdata).2
      rw [hdoc]
      exact ⟨h.hd,h.pos⟩
    | free => exact h.free
    | socket s' => exact h
  · exact ⟨CCNI_HEADER.length_toBytes _,fun _ => Nat.succ_pos 31⟩

/-! ### What tells a parser from a new one -/

theorem likeNew_of_resets (h : Sound p) (hresets : p.Resets) :
    LikeNew createFromXmlCdata p.free := by
  have hnew : new.hd.length = CCNI_HEADER.size := CCNI_HEADER.length_toBytes _
  have hfree : Alike p.free { p.free with hd := new.hd } ∧ { p.free with hd := new.hd } = new := by
    by_cases hdata : p.data = none
    · obtain ⟨hstate,hpos⟩ := hresets.resolve_left (not_not.mpr hdata)
      rw [free_of_none hdata]
      refine ⟨.header hstate hdata (h.pos hstate) h.hd hnew ?_,?_⟩
      · change new.hd.take p.pos = p.hd.take p.pos
        rw [hpos,List.take_zero,List.take_zero]
      · rw [hdata,hstate,hpos]
        rfl
    · rw [free_of_some hdata]
      exact ⟨.header rfl rfl (Nat.succ_pos 31) h.hd hnew rfl,rfl⟩
  intro s
  rw [← hfree.2]
  exact hfree.1.like s

theorem read_stuck (h : p.state ≠ .st_rdhd) (s : Sock) : (p.read s).1.state ≠ .st_rdhd := by
  unfold CCNIMsgParser.read
  split
  · next hstate => exact absurd hstate h
  · next hstate => exact readRdbd_state hstate s
  · exact h
  · exact h
  · exact h

/-- A socket with `k` bytes, for which one delivery is enough. -/
def zeros (k : ℕ) : Sock := ⟨List.replicate k 0,[.deliver CCNI_HEADER.size],[],[]⟩

theorem read_zeros {k n : ℕ} (hk : 0 < k) (hn : 0 < n) (hle : n ≤ CCNI_HEADER.size) :
    ∃ s, (zeros k).read n = (.data (List.replicate (min n k) 0),s) := by
  have hmax : min (max CCNI_HEADER.size 1) n = n := by omega
  unfold Sock.read zeros
  rw [if_neg hn.ne']
  dsimp only
  rw [if_neg (by simpa using hk.ne'),hmax,List.take_replicate]
  exact ⟨_,rfl⟩

/-- A parser in its header leaves it exactly when all that is missing comes. -/
theorem read_zeros_state {k : ℕ} (hk : 0 < k) (hstate : p.state = .st_rdhd)
    (hpos : p.pos < CCNI_HEADER.size) :
    (p.read (zeros k)).1.state = .st_rdhd ↔ k < CCNI_HEADER.size - p.pos := by
  obtain ⟨s,hread⟩ := read_zeros (n := CCNI_HEADER.size - p.pos) hk (by omega) (by omega)
  unfold CCNIMsgParser.read
  rw [hstate]
  dsimp only
  unfold _readRdhd
  rw [hread]
  dsimp only
  rw [List.length_replicate]
  split_ifs with hshort hgood
  · exact iff_of_true rfl (by omega)
  · exact iff_of_false (readRdbd_state rfl s) (by omega)
  · exact iff_of_false (by simp) (by omega)

/-- A stuck parser shows its state, and one in the middle of a header its end. -/
theorem not_likeNew (h : Sound p) (hresets : ¬ p.Resets) :
    ¬ LikeNew createFromXmlCdata p.free := by
  obtain ⟨hdata,hfront⟩ := not_or.mp hresets
  have hdata : p.data = none := not_not.mp hdata
  have hfree := free_of_none hdata
  intro hlike
  have hstates : ∀ s, (p.free.read s).1.state = (new.read s).1.state := by
    intro s
    have hout := (hlike s).output .read
    exact congrArg (fun o => o.1.state) hout
  by_cases hstate : p.state = .st_rdhd
  · have hpos : 0 < p.pos := Nat.pos_of_ne_zero fun hpos => hfront ⟨hstate,hpos⟩
    have hlt := h.pos hstate
    -- The bytes that the header still misses are no header for a new parser.
    have hsame := hstates (zeros (CCNI_HEADER.size - p.pos))
    have hshort : CCNI_HEADER.size - p.pos < CCNI_HEADER.size - new.pos :=
      Nat.sub_lt_sub_left (Nat.succ_pos 31) hpos
    have hnew : (new.read (zeros (CCNI_HEADER.size - p.pos))).1.state = .st_rdhd :=
      (read_zeros_state (by omega) rfl (Nat.succ_pos 31)).mpr hshort
    rw [hnew,hfree] at hsame
    have hless := (@read_zeros_state { p with doc := none } _ (by omega) hstate hlt).mp hsame
    dsimp only at hless
    omega
  · have hsame := hstates ⟨[],[],[],[]⟩
    rw [hfree] at hsame
    exact @read_stuck { p with doc := none } hstate _ hsame

end
end CCNIMsgParser

/-! ### Packers -/

/-- A packer with its document. -/
structure CCNIMsgPacker.Message where
  packer : CCNIMsgPacker
  doc : Option CXmlNode

namespace CCNIMsgPacker.Message

inductive Call
  | free
  | create
  | appendmsg (msg : CXmlNode)
  | pack (seq udata : UInt32) (k1 k2 : UInt64)
  | packToFlat
  | send (s : Sock)

def new : Message := ⟨.new,none⟩

def free (m : Message) : Message := ⟨m.packer.free,none⟩

def create (m : Message) : Message := { m with doc := some (CXmlNode.create xmlTagCCNIMessages) }

def appendmsg (m : Message) (msg : CXmlNode) : Message :=
  { m with doc := m.doc.map (fun root => root.addChild msg) }

variable (dump : CXmlNode → Option (List UInt8))

/-- `dump` is what libxml2 makes of a document; of none it makes no text. -/
def pack (m : Message) (seq udata : UInt32) (k1 k2 : UInt64) : Bool × Message :=
  let (ok,packer) := m.packer.pack (m.doc.bind dump) seq udata k1 k2
  (ok,{ m with packer })

def call (m : Message) : Call → Message
  | .free => m.free
  | .create => m.create
  | .appendmsg msg => m.appendmsg msg
  | .pack seq udata k1 k2 => (m.pack dump seq udata k1 k2).2
  | .packToFlat => (m.pack dump 0 0 0 0).2
  | .send s => { m with packer := (m.packer.send s).1 }

def Reached (m : Message) : Prop := ∃ calls, Lts.Run (Lts.Moves (call dump)) new calls m

/-- The messages are put into a new document. -/
def packAll (m : Message) (msgs : List CXmlNode) (seq udata : UInt32) (k1 k2 : UInt64) :
    Bool × Message :=
  (msgs.foldl appendmsg m.create).pack dump seq udata k1 k2

/-- The rest of a header is as the constructor made it. -/
def Plain (hd : CCNI_HEADER) : Prop :=
  { hd with datalen := 0, seq := 0, udata := 0, secret1 := 0, secret2 := 0 } = CCNI_HEADER.new

section
variable {dump : CXmlNode → Option (List UInt8)} {m : Message}

theorem sendsdbd_hd (p : CCNIMsgPacker) (s : Sock) : (p._sendsdbd s).1.hd = p.hd := by
  unfold _sendsdbd
  split
  · rfl
  · rfl
  · split_ifs <;> rfl

theorem send_hd (p : CCNIMsgPacker) (s : Sock) : (p.send s).1.hd = p.hd := by
  unfold CCNIMsgPacker.send
  split
  · unfold _sendsdhd
    split
    · rfl
    · rfl
    · split_ifs
      · rfl
      · exact sendsdbd_hd _ _
  · exact sendsdbd_hd p s
  · rfl
  · rfl

theorem Reached.plain (h : Reached dump m) : Plain m.packer.hd := by
  obtain ⟨calls,hrun⟩ := h
  refine hrun.invariant (P := fun m => Plain m.packer.hd) ?_ ?_
  · rintro m c _ h rfl
    cases c with
    | free => exact h
    | create => exact h
    | appendmsg msg => exact h
    | pack seq udata k1 k2 => exact h
    | packToFlat => exact h
    | send s => exact (congrArg Plain (send_hd m.packer s)).mpr h
  · exact rfl

/-- A plain header is the constructor's where `pack` does not write. -/
theorem Plain.with {hd : CCNI_HEADER} (h : Plain hd) (datalen : UInt16) (seq udata : UInt32)
    (k1 k2 : UInt64) : { hd with datalen, seq, udata, secret1 := k1, secret2 := k2 } =
      { CCNI_HEADER.new with datalen, seq, udata, secret1 := k1, secret2 := k2 } := by
  rw [← h]

theorem pack_plain (h : Plain m.packer.hd) (seq udata : UInt32) (k1 k2 : UInt64) :
    m.pack dump seq udata k1 k2 = { new with doc := m.doc }.pack dump seq udata k1 k2 := by
  simp only [pack,CCNIMsgPacker.pack,h.with]
  rfl

theorem appendmsg_foldl (m : Message) (msgs : List CXmlNode) :
    (msgs.foldl appendmsg m).packer = m.packer ∧
      (msgs.foldl appendmsg m).doc = (msgs.foldl appendmsg { new with doc := m.doc }).doc := by
  induction msgs generalizing m with
  | nil => exact ⟨rfl,rfl⟩
  | cons msg msgs ih => exact ⟨(ih (m.appendmsg msg)).1,(ih (m.appendmsg msg)).2⟩

/-- A packer that is used again packs what a new one packs. -/
theorem packAll_free (h : Plain m.packer.hd) (msgs : List CXmlNode) (seq udata : UInt32)
    (k1 k2 : UInt64) :
    m.free.packAll dump msgs seq udata k1 k2 = new.packAll dump msgs seq udata k1 k2 := by
  obtain ⟨hpacker,hdoc⟩ := appendmsg_foldl m.free.create msgs
  obtain ⟨hpacker',hdoc'⟩ := appendmsg_foldl new.create msgs
  have hplain : Plain (msgs.foldl appendmsg m.free.create).packer.hd := by
    rw [hpacker]
    exact h
  have hplain' : Plain (msgs.foldl appendmsg new.create).packer.hd := by
    rw [hpacker']
    exact rfl
  rw [packAll,packAll,pack_plain hplain,pack_plain hplain',hdoc,hdoc']
  rfl

end
end CCNIMsgPacker.Message

open CCNIMsgParser CCNIMsgPacker.Message

/-- A parser set free is as good as new exactly where it had a body or had read nothing. A packer
always is: what it packs afterwards is packed and sent as by a new one. -/
theorem reuse_iff {createFromXmlCdata : List UInt8 → Option CXmlNode}
    {dump : CXmlNode → Option (List UInt8)} {p : CCNIMsgParser} {m : CCNIMsgPacker.Message}
    (hp : CCNIMsgParser.Reached createFromXmlCdata p) (hm : CCNIMsgPacker.Message.Reached dump m) :
    (LikeNew createFromXmlCdata p.free ↔ p.Resets) ∧
    ∀ msgs seq udata k1 k2 ok packed ok' packed',
      m.free.packAll dump msgs seq udata k1 k2 = (ok,packed) →
      CCNIMsgPacker.Message.new.packAll dump msgs seq udata k1 k2 = (ok',packed') →
      ok = ok' ∧ packed.packer.frame = packed'.packer.frame ∧
        ∀ n s, packed.packer.sends n s = packed'.packer.sends n s := by
  constructor
  · constructor
    · intro hlike
      by_contra hresets
      exact not_likeNew hp.sound hresets hlike
    · exact likeNew_of_resets hp.sound
  · intro msgs seq udata k1 k2 ok packed ok' packed' hpack hpack'
    rw [packAll_free hm.plain,hpack'] at hpack
    cases hpack
    exact ⟨rfl,rfl,fun _ _ => rfl⟩

/-! ### A parser in a body, and one whose peer closed before it -/

/-- A header and one of two bytes of its body. -/
def bodySock : Sock :=
  ⟨{ CCNI_HEADER.new with datalen := 2 }.toBytes ++ [60],[.deliver 32,.deliver 1],[],[]⟩

theorem reuse_iff_body : LikeNew (fun _ => none) (CCNIMsgParser.new.read bodySock).1.free := by
  have hp : CCNIMsgParser.Reached (fun _ => none) (CCNIMsgParser.new.read bodySock).1 :=
    ⟨bodySock,[.read],_,.cons rfl (.nil _)⟩
  have hm : CCNIMsgPacker.Message.Reached (fun _ => none) .new := ⟨[],.nil _⟩
  exact (reuse_iff hp hm).1.mpr (.inl (by decide))

def closedSock : Sock := ⟨[],[.closed],[],[]⟩

theorem free_stuck : CCNIMsgParser.Reached (fun _ => none) (CCNIMsgParser.new.read closedSock).1 ∧
    ¬ LikeNew (fun _ => none) (CCNIMsgParser.new.read closedSock).1.free := by
  have hp : CCNIMsgParser.Reached (fun _ => none) (CCNIMsgParser.new.read closedSock).1 :=
    ⟨closedSock,[.read],_,.cons rfl (.nil _)⟩
  refine ⟨hp,not_likeNew hp.sound ?_⟩
  rintro (hdata | ⟨hstate,-⟩)
  · exact hdata rfl
  · cases hstate

end CcniServer
