import CcniServer.Wire.Header
import CcniServer.Wire.Socket
import CcniServer.Xml

/-!
The reader of one frame. It can be suspended after any byte, and its state is a function of
the bytes it has consumed since it was new.
-/
namespace CcniServer

inductive CCNIMsgParser.State
  | st_rdhd
  | st_rdbd
  | st_rdok
  | st_rderror
  | st_hderror
  deriving DecidableEq

/-- The memory of the header, the body as far as it was written, and the document made of it.
A missing body is a null pointer. -/
structure CCNIMsgParser where
  hd : List UInt8
  data : Option (List UInt8)
  state : CCNIMsgParser.State
  pos : ℕ
  doc : Option CXmlNode

abbrev xmlTagCCNIMessages := "CCNIMessages"

namespace CCNIMsgParser

def new : CCNIMsgParser where
  hd := CCNI_HEADER.new.toBytes
  data := none
  state := .st_rdhd
  pos := 0
  doc := none

def header (p : CCNIMsgParser) : CCNI_HEADER := .ofBytes p.hd

/-- The state is reset only together with a body. -/
def free (p : CCNIMsgParser) : CCNIMsgParser :=
  match p.data with
  | none => { p with doc := none }
  | some _ => { p with doc := none, data := none, pos := 0, state := .st_rdhd }

def _readRdbd (p : CCNIMsgParser) (s : Sock) : CCNIMsgParser × Sock :=
  match s.read (p.header.datalen.toNat - p.pos) with
  | (.eagain,s) => (p,s)
  | (.error,s) => ({ p with state := .st_rderror },s)
  | (.eof,s) => ({ p with state := .st_rderror },s)
  | (.data bs,s) =>
    let data := some (Bytes.write (p.data.getD []) p.pos bs)
    if bs.length < p.header.datalen.toNat - p.pos then
      ({ p with data := data, pos := p.pos + bs.length, state := .st_rdbd },s)
    else ({ p with data := data, state := .st_rdok },s)

def _readRdhd (p : CCNIMsgParser) (s : Sock) : CCNIMsgParser × Sock :=
  match s.read (CCNI_HEADER.size - p.pos) with
  | (.eagain,s) => (p,s)
  | (.error,s) => ({ p with state := .st_rderror },s)
  | (.eof,s) => ({ p with state := .st_rderror },s)
  | (.data bs,s) =>
    let p' := { p with hd := Bytes.write p.hd p.pos bs }
    if bs.length < CCNI_HEADER.size - p.pos then
      ({ p' with pos := p.pos + bs.length, state := .st_rdhd },s)
    else if p'.header.verify then
      _readRdbd { p' with data := some [], pos := 0, state := .st_rdbd } s
    else ({ p' with state := .st_hderror },s)

/-- `read`; what it returns is the state after it. -/
def read (p : CCNIMsgParser) (s : Sock) : CCNIMsgParser × Sock :=
  match p.state with
  | .st_rdhd => p._readRdhd s
  | .st_rdbd => p._readRdbd s
  | .st_rdok => (p,s)
  | .st_rderror => (p,s)
  | .st_hderror => (p,s)

/-- `parse`; `createFromXmlCdata` gives the root of the document that libxml2 reads. -/
def parse (createFromXmlCdata : List UInt8 → Option CXmlNode) (p : CCNIMsgParser) :
    Bool × CCNIMsgParser :=
  if p.state ≠ .st_rdok then (false,p)
  else
    match createFromXmlCdata (p.data.getD []) with
    | none => (false,{ p with doc := none })
    | some root => (root.name == xmlTagCCNIMessages,{ p with doc := some root })

/-- `n` successive calls of `read`. -/
def reads : ℕ → CCNIMsgParser → Sock → CCNIMsgParser × Sock
  | 0, p, s => (p,s)
  | n + 1, p, s => reads n (p.read s).1 (p.read s).2

theorem readRdbd_out (p : CCNIMsgParser) (s : Sock) : (p._readRdbd s).2.out = s.out := by
  have hout := Sock.read_out s (p.header.datalen.toNat - p.pos)
  unfold _readRdbd
  split
  · next hread => rwa [hread] at hout
  · next hread => rwa [hread] at hout
  · next hread => rwa [hread] at hout
  · next hread =>
    rw [hread] at hout
    split <;> exact hout

theorem readRdhd_out (p : CCNIMsgParser) (s : Sock) : (p._readRdhd s).2.out = s.out := by
  have hout := Sock.read_out s (CCNI_HEADER.size - p.pos)
  unfold _readRdhd
  split
  · next hread => rwa [hread] at hout
  · next hread => rwa [hread] at hout
  · next hread => rwa [hread] at hout
  · next hread =>
    rw [hread] at hout
    dsimp only
    split
    · exact hout
    · split
      · exact (readRdbd_out _ _).trans hout
      · exact hout

/-- A reader writes nothing. -/
theorem read_out (p : CCNIMsgParser) (s : Sock) : (p.read s).2.out = s.out := by
  unfold read
  cases p.state with
  | st_rdhd => exact readRdhd_out p s
  | st_rdbd => exact readRdbd_out p s
  | st_rdok => rfl
  | st_rderror => rfl
  | st_hderror => rfl

/-! ### The state as a function of the bytes -/

def Reading (p : CCNIMsgParser) : Prop := p.state = .st_rdhd ∨ p.state = .st_rdbd

/-- A parser that has consumed the bytes `bs` since it was new, from a peer that is alive. -/
inductive Parsed (bs : List UInt8) (p : CCNIMsgParser) : Prop
  | inHeader (hstate : p.state = .st_rdhd) (hpos : p.pos = bs.length)
      (hlt : bs.length < CCNI_HEADER.size) (hmem : p.hd.length = CCNI_HEADER.size)
      (hfront : p.hd.take bs.length = bs) (hdata : p.data = none)
  | refused (hstate : p.state = .st_hderror) (hhd : p.hd = bs)
      (hlen : bs.length = CCNI_HEADER.size) (hbad : p.header.verify = false)
  | noBody (hstate : p.state = .st_rderror) (hhd : p.hd = bs)
      (hlen : bs.length = CCNI_HEADER.size) (hgood : p.header.verify = true)
      (hzero : p.header.datalen.toNat = 0)
  | inBody (hstate : p.state = .st_rdbd) (hhd : p.hd = bs.take CCNI_HEADER.size)
      (hgood : p.header.verify = true) (hpos : bs.length = CCNI_HEADER.size + p.pos)
      (hdata : p.data = some (bs.drop CCNI_HEADER.size)) (hlt : p.pos < p.header.datalen.toNat)
  | complete (hstate : p.state = .st_rdok) (hhd : p.hd = bs.take CCNI_HEADER.size)
      (hgood : p.header.verify = true)
      (hlen : bs.length = CCNI_HEADER.size + p.header.datalen.toNat)
      (hdata : p.data = some (bs.drop CCNI_HEADER.size)) (hpos : 0 < p.header.datalen.toNat)

theorem parsed_new : Parsed [] new :=
  .inHeader rfl rfl (by decide) (CCNI_HEADER.length_toBytes _) rfl rfl

/-- A read of the body from inside the body. -/
theorem readRdbd_parsed {bs : List UInt8} {p : CCNIMsgParser} {s : Sock} (hs : s.Alive)
    (hstate : p.state = .st_rdbd) (hhd : p.hd = bs.take CCNI_HEADER.size)
    (hgood : p.header.verify = true) (hpos : bs.length = CCNI_HEADER.size + p.pos)
    (hdata : p.data = some (bs.drop CCNI_HEADER.size)) (hlt : p.pos < p.header.datalen.toNat) :
    ∃ got, s.Took got (p._readRdbd s).2 ∧ Parsed (bs ++ got) (p._readRdbd s).1 := by
  have hn : p.header.datalen.toNat - p.pos ≠ 0 := by omega
  rcases Sock.read_alive hs hn with ⟨got,s',hread,hne,hle,htook⟩ | ⟨s',hread,htook⟩
  · have hgot : 0 < got.length := List.length_pos_of_ne_nil hne
    have hfront : (bs ++ got).take CCNI_HEADER.size = bs.take CCNI_HEADER.size :=
      List.take_append_of_le_length (by omega)
    have hback : (bs ++ got).drop CCNI_HEADER.size = bs.drop CCNI_HEADER.size ++ got :=
      List.drop_append_of_le_length (by omega)
    have hbody : (bs.drop CCNI_HEADER.size).length = p.pos := by
      rw [List.length_drop]
      omega
    have hwrite : Bytes.write (p.data.getD []) p.pos got = bs.drop CCNI_HEADER.size ++ got := by
      rw [hdata,Option.getD_some,← hbody,Bytes.write_end]
    refine ⟨got,?_⟩
    unfold _readRdbd
    simp only [hread,hwrite]
    by_cases hshort : got.length < p.header.datalen.toNat - p.pos
    · rw [if_pos hshort]
      refine ⟨htook,.inBody rfl ?_ hgood ?_ ?_ ?_⟩
      · exact hhd.trans hfront.symm
      · change (bs ++ got).length = CCNI_HEADER.size + (p.pos + got.length)
        rw [List.length_append]
        omega
      · rw [hback]
      · change p.pos + got.length < p.header.datalen.toNat
        omega
    · rw [if_neg hshort]
      refine ⟨htook,.complete rfl ?_ hgood ?_ ?_ ?_⟩
      · exact hhd.trans hfront.symm
      · change (bs ++ got).length = CCNI_HEADER.size + p.header.datalen.toNat
        rw [List.length_append]
        omega
      · rw [hback]
      · change 0 < p.header.datalen.toNat
        omega
  · refine ⟨[],?_⟩
    unfold _readRdbd
    simp only [hread,List.append_nil]
    exact ⟨htook,.inBody hstate hhd hgood hpos hdata hlt⟩

/-- A body of no bytes is taken for the end of the stream. -/
theorem readRdbd_empty {p : CCNIMsgParser} (h : p.header.datalen.toNat = 0) (s : Sock) :
    p._readRdbd s = ({ p with state := .st_rderror },s) := by
  have hn : p.header.datalen.toNat - p.pos = 0 := by omega
  unfold _readRdbd
  rw [hn]
  rfl

/-- A read of the header, which goes on into the body when it is the last of the header. -/
theorem readRdhd_parsed {bs : List UInt8} {p : CCNIMsgParser} {s : Sock} (hs : s.Alive)
    (hstate : p.state = .st_rdhd) (hpos : p.pos = bs.length)
    (hlt : bs.length < CCNI_HEADER.size) (hmem : p.hd.length = CCNI_HEADER.size)
    (hfront : p.hd.take bs.length = bs) (hdata : p.data = none) :
    ∃ got, s.Took got (p._readRdhd s).2 ∧ Parsed (bs ++ got) (p._readRdhd s).1 := by
  have hn : CCNI_HEADER.size - p.pos ≠ 0 := by omega
  rcases Sock.read_alive hs hn with ⟨got,s',hread,hne,hle,htook⟩ | ⟨s',hread,htook⟩
  · have hgot : 0 < got.length := List.length_pos_of_ne_nil hne
    have hlen : (Bytes.write p.hd p.pos got).length = CCNI_HEADER.size := by
      rw [Bytes.length_write (by omega),hmem]
    have htake : (Bytes.write p.hd p.pos got).take (bs ++ got).length = bs ++ got := by
      rw [List.length_append,← hpos]
      exact Bytes.take_write (hpos ▸ hfront) hpos.symm
    unfold _readRdhd
    simp only [hread]
    by_cases hshort : got.length < CCNI_HEADER.size - p.pos
    · refine ⟨got,?_⟩
      rw [if_pos hshort]
      refine ⟨htook,.inHeader rfl ?_ ?_ hlen htake hdata⟩
      · change p.pos + got.length = (bs ++ got).length
        rw [List.length_append,hpos]
      · rw [List.length_append]
        omega
    · rw [if_neg hshort]
      have hfull : (bs ++ got).length = CCNI_HEADER.size := by
        rw [List.length_append]
        omega
      have hhd : Bytes.write p.hd p.pos got = bs ++ got := by
        rw [← htake,hfull,List.take_of_length_le hlen.le]
      rw [hhd]
      have hbody : (bs ++ got).drop CCNI_HEADER.size = [] := List.drop_of_length_le hfull.le
      have hhead : (bs ++ got).take CCNI_HEADER.size = bs ++ got :=
        List.take_of_length_le hfull.le
      cases hgood : header { p with hd := bs ++ got } |>.verify with
      | false =>
        refine ⟨got,?_⟩
        rw [if_neg Bool.false_ne_true]
        exact ⟨htook,.refused rfl rfl hfull hgood⟩
      | true =>
        rw [if_pos rfl]
        by_cases hzero : (CCNI_HEADER.ofBytes (bs ++ got)).datalen.toNat = 0
        · refine ⟨got,?_⟩
          have hempty := @readRdbd_empty
            { p with hd := bs ++ got, data := some [], pos := 0, state := .st_rdbd } hzero s'
          rw [hempty]
          exact ⟨htook,.noBody rfl rfl hfull hgood hzero⟩
        · obtain ⟨got',htook',hparsed⟩ := @readRdbd_parsed (bs ++ got)
            { p with hd := bs ++ got, data := some [], pos := 0, state := .st_rdbd } s'
            htook.alive rfl hhead.symm hgood hfull (by rw [hbody]) (Nat.pos_of_ne_zero hzero)
          refine ⟨got ++ got',htook.trans htook',?_⟩
          rw [← List.append_assoc]
          exact hparsed
  · refine ⟨[],?_⟩
    unfold _readRdhd
    simp only [hread,List.append_nil]
    exact ⟨htook,.inHeader hstate hpos hlt hmem hfront hdata⟩

theorem read_parsed {bs : List UInt8} {p : CCNIMsgParser} {s : Sock} (hs : s.Alive)
    (hp : Parsed bs p) (hr : p.Reading) :
    ∃ got, s.Took got (p.read s).2 ∧ Parsed (bs ++ got) (p.read s).1 := by
  unfold read
  cases hp with
  | inHeader hstate hpos hlt hmem hfront hdata =>
    rw [hstate]
    exact readRdhd_parsed hs hstate hpos hlt hmem hfront hdata
  | inBody hstate hhd hgood hpos hdata hlt =>
    rw [hstate]
    exact readRdbd_parsed hs hstate hhd hgood hpos hdata hlt
  | refused hstate => exact absurd hr (by simp [Reading,hstate])
  | noBody hstate => exact absurd hr (by simp [Reading,hstate])
  | complete hstate => exact absurd hr (by simp [Reading,hstate])

theorem readRdbd_state {p : CCNIMsgParser} (h : p.state = .st_rdbd) (s : Sock) :
    (p._readRdbd s).1.state ≠ .st_rdhd := by
  unfold _readRdbd
  split
  · rw [h]
    simp
  · simp
  · simp
  · split <;> simp

/-- A read from the front of a header leaves the header, unless it brings less than all of
it. -/
theorem read_header_iff {p : CCNIMsgParser} {s : Sock} (hs : s.Alive) (hstate : p.state = .st_rdhd)
    (hpos : p.pos = 0) : (p.read s).1.state ≠ .st_rdhd ↔ s.WholeHeader CCNI_HEADER.size := by
  have hn : CCNI_HEADER.size ≠ 0 := Nat.succ_ne_zero 31
  unfold read
  rw [hstate]
  dsimp only
  unfold _readRdhd
  rw [hpos,Nat.sub_zero]
  rcases Sock.read_alive hs hn with ⟨got,s',hread,hne,hle,htook⟩ | ⟨s',hread,htook⟩
  · rw [hread,← Sock.read_whole hn hread]
    dsimp only
    split
    · next hshort => exact ⟨fun h => absurd rfl h,fun h => absurd hshort (Nat.not_lt.mpr h)⟩
    · next hwhole =>
      refine ⟨fun _ => Nat.not_lt.mp hwhole,fun _ => ?_⟩
      split
      · exact readRdbd_state rfl _
      · simp
  · rw [hread]
    exact ⟨fun h => absurd hstate h,fun h => absurd h (Sock.read_again_not_whole hn hread)⟩

/-- A parser that has reached the end of its frame keeps it. -/
theorem read_done {p : CCNIMsgParser} (hr : ¬ p.Reading) (s : Sock) : p.read s = (p,s) := by
  unfold read
  cases hstate : p.state with
  | st_rdhd => exact absurd (.inl hstate) hr
  | st_rdbd => exact absurd (.inr hstate) hr
  | st_rdok => rfl
  | st_rderror => rfl
  | st_hderror => rfl

theorem reads_done {p : CCNIMsgParser} (hr : ¬ p.Reading) (n : ℕ) (s : Sock) :
    reads n p s = (p,s) := by
  induction n with
  | zero => rfl
  | succ n ih => rw [reads,read_done hr,ih]

/-- Called as often as the schedule is long, a reader stops inside a frame only where the
input ends. The induction is on the calls; each uses up a step of the schedule. -/
theorem reads_parsed {bs : List UInt8} {p : CCNIMsgParser} {s : Sock} {n : ℕ} (hs : s.Alive)
    (hp : Parsed bs p) (henough : s.inp.length ≤ Sock.deliveries s.recvs)
    (hn : s.recvs.length ≤ n) :
    ∃ got, s.inp = got ++ (reads n p s).2.inp ∧ Parsed (bs ++ got) (reads n p s).1 ∧
      ((reads n p s).1.Reading → (reads n p s).2.inp = []) := by
  induction n generalizing bs p s with
  | zero =>
    refine ⟨[],rfl,?_,fun _ => ?_⟩
    · rw [List.append_nil]
      exact hp
    · have hnil : s.recvs = [] := List.length_eq_zero_iff.mp (Nat.le_zero.mp hn)
      rw [hnil] at henough
      exact List.length_eq_zero_iff.mp (Nat.le_zero.mp henough)
  | succ n ih =>
    by_cases hr : p.Reading
    · obtain ⟨got,htook,hread⟩ := read_parsed hs hp hr
      have hless : (p.read s).2.recvs.length ≤ n := by
        by_cases hnil : s.recvs = []
        · have hle := htook.recvs
          rw [hnil] at hle
          exact hle.trans (Nat.zero_le n)
        · have hlt := htook.used hnil
          omega
      obtain ⟨got',hinp,hreads,hend⟩ := ih htook.alive hread (htook.enough henough) hless
      refine ⟨got ++ got',?_,?_,hend⟩
      · rw [htook.inp,List.append_assoc]
        exact congrArg (got ++ ·) hinp
      · rw [← List.append_assoc]
        exact hreads
    · rw [reads_done hr]
      refine ⟨[],rfl,?_,fun h => absurd h hr⟩
      rw [List.append_nil]
      exact hp

/-- Where a parser stands in a stream that begins with a frame. -/
inductive Stands (hd : CCNI_HEADER) (body more bs rest : List UInt8) (p : CCNIMsgParser) : Prop
  | inHeader (hstate : p.state = .st_rdhd) (hlt : bs.length < CCNI_HEADER.size)
  | refused (hstate : p.state = .st_hderror) (hbad : hd.verify = false)
  | noBody (hstate : p.state = .st_rderror) (hzero : hd.datalen.toNat = 0)
  | inBody (hstate : p.state = .st_rdbd)
      (hlt : bs.length < CCNI_HEADER.size + hd.datalen.toNat)
  | complete (hstate : p.state = .st_rdok) (hgood : hd.verify = true)
      (hheader : p.header = hd) (hdata : p.data = some body) (hrest : rest = more)

/-- The header that a parser has read is the header at the front of the stream. -/
theorem header_of_stream {hd : CCNI_HEADER} {body more bs rest : List UInt8} {p : CCNIMsgParser}
    (hstream : hd.toBytes ++ body ++ more = bs ++ rest) (hle : CCNI_HEADER.size ≤ bs.length)
    (hhd : p.hd = bs.take CCNI_HEADER.size) : p.header = hd := by
  have hfront : bs.take CCNI_HEADER.size = hd.toBytes := by
    rw [← List.take_append_of_le_length hle,← hstream,List.append_assoc,
      List.take_left' (CCNI_HEADER.length_toBytes hd)]
  rw [header,hhd,hfront,CCNI_HEADER.ofBytes_toBytes]

theorem Parsed.stands {hd : CCNI_HEADER} {body more bs rest : List UInt8} {p : CCNIMsgParser}
    (hp : Parsed bs p) (hlen : body.length = hd.datalen.toNat)
    (hstream : hd.toBytes ++ body ++ more = bs ++ rest) : Stands hd body more bs rest p := by
  cases hp with
  | inHeader hstate hpos hlt hmem hfront hdata => exact .inHeader hstate hlt
  | refused hstate hhd hsize hbad =>
    have hheader := header_of_stream hstream hsize.ge
      (hhd.trans (List.take_of_length_le hsize.le).symm)
    exact .refused hstate (hheader ▸ hbad)
  | noBody hstate hhd hsize hgood hzero =>
    have hheader := header_of_stream hstream hsize.ge
      (hhd.trans (List.take_of_length_le hsize.le).symm)
    exact .noBody hstate (hheader ▸ hzero)
  | inBody hstate hhd hgood hpos hdata hlt =>
    have hheader := header_of_stream hstream (by omega) hhd
    refine .inBody hstate ?_
    rw [← hheader]
    omega
  | complete hstate hhd hgood hsize hdata hpos =>
    have hheader := header_of_stream hstream (by omega) hhd
    have hsame : (hd.toBytes ++ body).length = bs.length := by
      rw [List.length_append,CCNI_HEADER.length_toBytes,hlen,hsize,hheader]
    obtain ⟨hbs,hrest⟩ := List.append_inj hstream hsame
    refine .complete hstate (hheader ▸ hgood) hheader ?_ hrest.symm
    rw [hdata,← hbs,List.drop_left' (CCNI_HEADER.length_toBytes hd)]

theorem Parsed.withDoc {bs : List UInt8} {p : CCNIMsgParser} (hp : Parsed bs p)
    (doc : Option CXmlNode) : Parsed bs { p with doc := doc } := by
  cases hp with
  | inHeader h₁ h₂ h₃ h₄ h₅ h₆ => exact .inHeader h₁ h₂ h₃ h₄ h₅ h₆
  | refused h₁ h₂ h₃ h₄ => exact .refused h₁ h₂ h₃ h₄
  | noBody h₁ h₂ h₃ h₄ h₅ => exact .noBody h₁ h₂ h₃ h₄ h₅
  | inBody h₁ h₂ h₃ h₄ h₅ h₆ => exact .inBody h₁ h₂ h₃ h₄ h₅ h₆
  | complete h₁ h₂ h₃ h₄ h₅ h₆ => exact .complete h₁ h₂ h₃ h₄ h₅ h₆

/-- `parse` changes nothing but the document. -/
theorem parse_snd (createFromXmlCdata : List UInt8 → Option CXmlNode) (p : CCNIMsgParser) :
    ∃ doc, (p.parse createFromXmlCdata).2 = { p with doc := doc } := by
  unfold parse
  split
  · exact ⟨p.doc,rfl⟩
  · split
    · exact ⟨none,rfl⟩
    · exact ⟨_,rfl⟩

/-- `parse` refuses a message that is not complete. -/
theorem parse_incomplete (createFromXmlCdata : List UInt8 → Option CXmlNode) {p : CCNIMsgParser}
    (h : p.state ≠ .st_rdok) : (p.parse createFromXmlCdata).1 = false := by
  unfold parse
  rw [if_pos h]

section
variable {bs : List UInt8} {p : CCNIMsgParser}

/-- In a header. -/
theorem Parsed.in_header (hp : Parsed bs p) (h : p.state = .st_rdhd) :
    p.pos = bs.length ∧ p.data = none := by
  cases hp with
  | inHeader _ hpos _ _ _ hdata => exact ⟨hpos,hdata⟩
  | refused h' => simp [h'] at h
  | noBody h' => simp [h'] at h
  | inBody h' => simp [h'] at h
  | complete h' => simp [h'] at h

/-- In a body. -/
theorem Parsed.in_body (hp : Parsed bs p) (h : p.state = .st_rdbd) :
    CCNI_HEADER.size ≤ bs.length ∧ p.data = some (bs.drop CCNI_HEADER.size) := by
  cases hp with
  | inBody _ _ _ hpos hdata => exact ⟨by omega,hdata⟩
  | inHeader h' => simp [h'] at h
  | refused h' => simp [h'] at h
  | noBody h' => simp [h'] at h
  | complete h' => simp [h'] at h

theorem Stands.body_lt {hd : CCNI_HEADER} {body more rest : List UInt8}
    (hs : Stands hd body more bs rest p) (h : p.state = .st_rdbd) :
    bs.length < CCNI_HEADER.size + hd.datalen.toNat := by
  cases hs with
  | inBody _ hlt => exact hlt
  | inHeader h' => simp [h'] at h
  | refused h' => simp [h'] at h
  | noBody h' => simp [h'] at h
  | complete h' => simp [h'] at h

/-- A parser set free after a whole frame is in front of the next one. -/
theorem Parsed.free (hp : Parsed bs p) (hok : p.state = .st_rdok) :
    Parsed [] p.free ∧ p.free.state = .st_rdhd := by
  cases hp with
  | complete hstate hhd hgood hsize hdata hpos =>
    have hmem : p.hd.length = CCNI_HEADER.size := by
      rw [hhd,List.length_take]
      omega
    have hfree : p.free = { p with doc := none, data := none, pos := 0, state := .st_rdhd } := by
      unfold CCNIMsgParser.free
      rw [hdata]
    rw [hfree]
    exact ⟨.inHeader rfl rfl (Nat.succ_pos 31) hmem rfl rfl,rfl⟩
  | inHeader h' => simp [h'] at hok
  | refused h' => simp [h'] at hok
  | noBody h' => simp [h'] at hok
  | inBody h' => simp [h'] at hok

end

end CCNIMsgParser
end CcniServer
