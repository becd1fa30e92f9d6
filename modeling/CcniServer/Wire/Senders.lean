import CcniServer.Lib.Pieces
import CcniServer.Wire.Packer

/-!
The three senders of a packed message: the packer that is called again and again, the loop of
`tcp_write` under `block_send`, and the notification that is called again and again.
-/
namespace CcniServer

/-! ### A socket under a sender -/

namespace Sock

/-- The acceptances of a schedule. -/
def acceptances (ss : List SendOutcome) : ℕ :=
  ss.countP (fun o => match o with | .accept _ => true | _ => false)

/-- What a socket does to a piece that continues a text. -/
theorem send_pieces {before text : List UInt8} {k : ℕ} {s : Sock}
    (h : Pieces.Out before text k s.out) {piece : List UInt8} (hpiece : piece <+: text.drop k) :
    (∃ m s', s.send piece = (.sent m,s') ∧ 0 < m ∧ m ≤ piece.length ∧
      Pieces.Out before text (k + m) s'.out) ∨
    (∃ r s', s.send piece = (r,s') ∧ (r = .eagain ∨ r = .error) ∧
      Pieces.Out before text k s'.out) := by
  rcases send_cases s piece with ⟨m,s',hsend,hpos,hm,hout,_⟩ | ⟨r,s',hsend,hr,hout,_⟩
  · refine .inl ⟨m,s',hsend,hpos,hm,?_⟩
    rw [hout]
    exact h.more hpiece hm
  · refine .inr ⟨r,s',hsend,hr,?_⟩
    rw [hout]
    exact h

/-- A send on a schedule that still has an acceptance uses up an answer, and the acceptance
only for at least one byte. -/
theorem send_uses {s : Sock} (hs : s.Writable) (haccept : 0 < acceptances s.sends)
    {bs : List UInt8} (hbs : bs ≠ []) :
    ∃ r s', s.send bs = (r,s') ∧ s'.Writable ∧ s'.sends.length < s.sends.length ∧
      ((r = .eagain ∧ acceptances s'.sends = acceptances s.sends) ∨
        ∃ m, r = .sent m ∧ 0 < m ∧ m ≤ bs.length ∧
          acceptances s.sends = acceptances s'.sends + 1) := by
  have hlen : 0 < bs.length := List.length_pos_of_ne_nil hbs
  unfold send
  cases hsends : s.sends with
  | nil =>
    rw [hsends] at haccept
    exact absurd haccept (Nat.lt_irrefl 0)
  | cons o ss =>
    have hlt : ss.length < (o :: ss).length := Nat.lt_succ_self _
    cases o with
    | accept k =>
      refine ⟨_,_,if_neg hbs,hs.rest hsends,hlt,.inr ⟨_,rfl,by omega,by omega,?_⟩⟩
      simp [acceptances]
    | again =>
      refine ⟨_,_,rfl,hs.rest hsends,hlt,.inl ⟨rfl,?_⟩⟩
      simp [acceptances]
    | fail => exact absurd rfl (hs .fail (by rw [hsends]; exact List.mem_cons_self))

end Sock

/-! ### tcp_write -/

/-- The loop of `tcp_write` from the position `wlen` on, over so many of its rounds; no number
where it is still in the loop after them. -/
def tcp_writeFrom (buf : List UInt8) (len : ℕ) : ℕ → ℕ → Sock → Option ℤ × Sock
  | 0, wlen, s => (if wlen < len then none else some wlen,s)
  | rounds + 1, wlen, s =>
    if wlen < len then
      match s.send ((buf.drop wlen).take (len - wlen)) with
      | (.error,s) => (some (-1),s)
      | (.eagain,s) => tcp_writeFrom buf len rounds wlen s
      | (.sent ret,s) => tcp_writeFrom buf len rounds (wlen + ret) s
    else (some wlen,s)

def tcp_write (buf : List UInt8) (len rounds : ℕ) (s : Sock) : Option ℤ × Sock :=
  tcp_writeFrom buf len rounds 0 s

theorem tcp_writeFrom_done {buf : List UInt8} {len wlen : ℕ} (h : ¬ wlen < len) (rounds : ℕ)
    (s : Sock) : tcp_writeFrom buf len rounds wlen s = (some (wlen : ℤ),s) := by
  cases rounds with
  | zero => rw [tcp_writeFrom,if_neg h]
  | succ rounds => rw [tcp_writeFrom,if_neg h]

/-- What the loop has put on the socket is a front of the text, also while it is in the loop,
and it returns the length only behind all of it. The induction is on the rounds. -/
theorem tcp_writeFrom_pieces {before text buf : List UInt8} {len i wlen : ℕ} {s : Sock}
    (hbuf : buf.take len <+: text.drop i) (hlen : len ≤ buf.length) (hw : wlen ≤ len)
    (rounds : ℕ) (h : Pieces.Out before text (i + wlen) s.out) :
    ∃ w, Pieces.Out before text (i + w) (tcp_writeFrom buf len rounds wlen s).2.out ∧
      ∀ r, (tcp_writeFrom buf len rounds wlen s).1 = some r → r = -1 ∨ (r = len ∧ w = len) := by
  have hdone : ∀ {wlen : ℕ} {s : Sock} (rounds : ℕ), wlen ≤ len → ¬ wlen < len →
      Pieces.Out before text (i + wlen) s.out →
      ∃ w, Pieces.Out before text (i + w) (tcp_writeFrom buf len rounds wlen s).2.out ∧
        ∀ r, (tcp_writeFrom buf len rounds wlen s).1 = some r →
          r = -1 ∨ (r = len ∧ w = len) := by
    intro wlen s rounds hw hmore h
    have hall : wlen = len := by omega
    rw [tcp_writeFrom_done hmore]
    refine ⟨wlen,h,fun r hr => .inr ⟨?_,hall⟩⟩
    injection hr with hr
    rw [← hr,hall]
  induction rounds generalizing wlen s with
  | zero =>
    by_cases hmore : wlen < len
    · rw [tcp_writeFrom,if_pos hmore]
      exact ⟨wlen,h,nofun⟩
    · exact hdone 0 hw hmore h
  | succ rounds ih =>
    by_cases hmore : wlen < len
    · have hpiece : (buf.drop wlen).take (len - wlen) <+: text.drop (i + wlen) := by
        rw [← List.drop_take,← List.drop_drop]
        exact List.IsPrefix.drop hbuf wlen
      have hsize : ((buf.drop wlen).take (len - wlen)).length = len - wlen := by
        rw [List.length_take,List.length_drop]
        omega
      rw [tcp_writeFrom,if_pos hmore]
      rcases Sock.send_pieces h hpiece with ⟨m,s',hsend,hm,hle,hout⟩ | ⟨r,s',hsend,hr,hout⟩
      · rw [hsend]
        rw [Nat.add_assoc] at hout
        exact ih (by omega) hout
      · rw [hsend]
        rcases hr with rfl | rfl
        · exact ih hw hout
        · refine ⟨wlen,hout,fun r hr => .inl ?_⟩
          injection hr with hr
          exact hr.symm
    · exact hdone (rounds + 1) hw hmore h

/-- On a socket that accepts often enough and never fails the loop ends, and it has used at
most one acceptance for each byte. -/
theorem tcp_writeFrom_returns {buf : List UInt8} {len wlen : ℕ} {s : Sock}
    (hlen : len ≤ buf.length) (hw : wlen ≤ len) (hs : s.Writable)
    (henough : len - wlen ≤ Sock.acceptances s.sends) {rounds : ℕ}
    (hrounds : s.sends.length ≤ rounds) :
    ∃ s', tcp_writeFrom buf len rounds wlen s = (some (len : ℤ),s') ∧ s'.Writable ∧
      s'.sends.length ≤ s.sends.length ∧
      Sock.acceptances s.sends ≤ Sock.acceptances s'.sends + (len - wlen) := by
  induction rounds generalizing wlen s with
  | zero =>
    have hnil : s.sends = [] := List.length_eq_zero_iff.mp (Nat.le_zero.mp hrounds)
    have hall : wlen = len := by
      rw [hnil] at henough
      have : Sock.acceptances [] = 0 := rfl
      omega
    rw [tcp_writeFrom_done (by omega),hall]
    exact ⟨s,rfl,hs,le_refl _,by omega⟩
  | succ rounds ih =>
    by_cases hmore : wlen < len
    · have hne : (buf.drop wlen).take (len - wlen) ≠ [] := by
        rw [← List.length_pos_iff_ne_nil,List.length_take,List.length_drop]
        omega
      obtain ⟨r,s',hsend,hs',hlt,hcases⟩ := Sock.send_uses hs (by omega) hne
      rw [tcp_writeFrom,if_pos hmore,hsend]
      rcases hcases with ⟨rfl,hsame⟩ | ⟨m,rfl,hm,hmle,hused⟩
      · obtain ⟨t,ht,hwt,hlent,haccept⟩ := ih hw hs' (by omega) (by omega)
        exact ⟨t,ht,hwt,by omega,by omega⟩
      · rw [List.length_take,List.length_drop] at hmle
        obtain ⟨t,ht,hwt,hlent,haccept⟩ :=
          @ih (wlen + m) s' (by omega) hs' (by omega) (by omega)
        exact ⟨t,ht,hwt,by omega,by omega⟩
    · have hall : wlen = len := by omega
      rw [tcp_writeFrom_done hmore,hall]
      exact ⟨s,rfl,hs,le_refl _,by omega⟩

/-! ### What a sender makes of a frame -/

/-- A front of the frame is out, and all of it where the sender reports success. -/
structure Faithful (frame : List UInt8) (s s' : Sock) (success : Prop) : Prop where
  front : ∃ k, Pieces.Out s.out frame k s'.out
  whole : success → s'.out = s.out ++ frame

/-- The kernel only ever adds to what it has accepted, so what it had at a moment between the two
is a front of the frame as well. -/
theorem Faithful.between {frame mid : List UInt8} {s s' : Sock} {success : Prop}
    (h : Faithful frame s s' success) (hmid : s.out <+: mid) (hend : mid <+: s'.out) :
    ∃ k, Pieces.Out s.out frame k mid := by
  obtain ⟨k,hout⟩ := h.front
  exact hout.between hmid hend

namespace CCNIMsgPacker

theorem sends_faithful {p : CCNIMsgPacker} (hf : p.Filled) (hp : p.Sending 0) (n : ℕ)
    (s : Sock) : Faithful p.frame s (sends n p s).2 ((sends n p s).1.state = .st_sdok) := by
  obtain ⟨m,hout,hend⟩ := sends_frame hf hp n s
  rw [List.drop_zero] at hout
  refine ⟨⟨_,.of_take hout⟩,fun hok => ?_⟩
  have hall : p.frame.length ≤ m := (hend hok).trans (Nat.zero_add m).le
  rw [hout,List.take_of_length_le hall]

/-- The two loops of `block_send` over so many rounds of each. -/
def block_send (p : CCNIMsgPacker) (hdRounds bodyRounds : ℕ) (s : Sock) : Option ℤ × Sock :=
  match tcp_write p.hd.toBytes CCNI_HEADER.size hdRounds s with
  | (none,s) => (none,s)
  | (some slen,s) =>
    if slen < 0 then (some slen,s)
    else tcp_write (p.data.getD []) p.hd.datalen.toNat bodyRounds s

theorem datalen_le {p : CCNIMsgPacker} (hf : p.Filled) :
    p.hd.datalen.toNat ≤ (p.data.getD []).length := by
  have hlen : p.body.length = p.hd.datalen.toNat := hf
  rw [body,List.length_take] at hlen
  omega

/-- The header is the front of the frame, and the body continues it. -/
theorem frame_pieces (p : CCNIMsgPacker) :
    p.hd.toBytes.take CCNI_HEADER.size <+: p.frame.drop 0 ∧
    (p.data.getD []).take p.hd.datalen.toNat <+: p.frame.drop CCNI_HEADER.size := by
  constructor
  · rw [List.take_of_length_le (CCNI_HEADER.length_toBytes _).le,List.drop_zero,frame]
    exact List.prefix_append _ _
  · rw [frame,List.drop_left' (CCNI_HEADER.length_toBytes _),body]

theorem block_send_faithful {p : CCNIMsgPacker} (hf : p.Filled) (hdRounds bodyRounds : ℕ)
    (s : Sock) : Faithful p.frame s (p.block_send hdRounds bodyRounds s).2
      (∃ r, (p.block_send hdRounds bodyRounds s).1 = some r ∧ 0 ≤ r) := by
  have hlen := length_frame hf
  obtain ⟨w,hout,hres⟩ := tcp_writeFrom_pieces p.frame_pieces.1 (CCNI_HEADER.length_toBytes _).ge
    (Nat.zero_le _) hdRounds (Pieces.Out.start s.out p.frame)
  unfold block_send tcp_write
  cases hwrite : tcp_writeFrom p.hd.toBytes CCNI_HEADER.size hdRounds 0 s with
  | mk res t =>
    rw [hwrite] at hout hres
    cases res with
    | none => exact ⟨⟨_,hout⟩,fun ⟨r,hr,_⟩ => absurd hr nofun⟩
    | some slen =>
      dsimp only
      rcases hres slen rfl with rfl | ⟨rfl,rfl⟩
      · refine ⟨⟨_,hout⟩,fun ⟨r,hr,hpos⟩ => ?_⟩
        injection hr with hr
        omega
      · -- The header is out, and the body follows from its first byte.
        rw [if_neg (by omega)]
        rw [Nat.zero_add] at hout
        obtain ⟨w',hout',hres'⟩ := tcp_writeFrom_pieces p.frame_pieces.2 (datalen_le hf)
          (Nat.zero_le _) bodyRounds hout
        refine ⟨⟨_,hout'⟩,fun ⟨r,hr,hpos⟩ => ?_⟩
        rcases hres' r hr with rfl | ⟨_,hall⟩
        · omega
        · exact hout'.whole (by omega)

/-- A socket that accepts as often as the frame has bytes, and never fails, brings `block_send`
to its end. -/
theorem block_send_returns {p : CCNIMsgPacker} (hf : p.Filled) {s : Sock} (hs : s.Writable)
    (henough : p.frame.length ≤ Sock.acceptances s.sends) {hdRounds bodyRounds : ℕ}
    (hhd : s.sends.length ≤ hdRounds) (hbody : s.sends.length ≤ bodyRounds) :
    (p.block_send hdRounds bodyRounds s).1 = some (p.hd.datalen.toNat : ℤ) ∧
    (p.block_send hdRounds bodyRounds s).2.out = s.out ++ p.frame := by
  have hlen := length_frame hf
  have hres : (p.block_send hdRounds bodyRounds s).1 = some (p.hd.datalen.toNat : ℤ) := by
    obtain ⟨t,ht,hwt,hlent,haccept⟩ := tcp_writeFrom_returns
      (CCNI_HEADER.length_toBytes p.hd).ge (Nat.zero_le _) hs (by omega) hhd
    obtain ⟨u,hu,_⟩ := tcp_writeFrom_returns (datalen_le hf) (Nat.zero_le _) hwt (by omega)
      (hlent.trans hbody)
    unfold block_send tcp_write
    rw [ht]
    dsimp only
    rw [if_neg (by omega),hu]
  exact ⟨hres,(block_send_faithful hf hdRounds bodyRounds s).whole ⟨_,hres,by omega⟩⟩

end CCNIMsgPacker

namespace CCNINotification

/-- `n` successive calls of `send`. -/
def sends : ℕ → CCNINotification → Sock → CCNINotification × Sock
  | 0, n, s => (n,s)
  | c + 1, n, s => sends c (n.send s).2.1 (n.send s).2.2

/-- A call of `send`, also behind the end of the message or after an error. -/
theorem send_faithful {before : List UInt8} {n : CCNINotification} {s : Sock}
    (h : Pieces.Out before n.msg n.pos s.out) :
    Pieces.Out before n.msg (n.send s).2.1.pos (n.send s).2.2.out ∧
    (n.send s).2.1.msg = n.msg ∧
    ((n.send s).1 = .sendok → (n.send s).2.2.out = before ++ n.msg) := by
  unfold send
  by_cases hnone : n.msg.length ≤ 0
  · rw [if_pos hnone]
    exact ⟨h,rfl,fun _ => h.whole (by omega)⟩
  · rw [if_neg hnone]
    rcases Sock.send_pieces h List.prefix_rfl with
      ⟨m,s',hsend,_,_,hout⟩ | ⟨r,s',hsend,hr,hout⟩
    · simp only [hsend]
      by_cases hall : n.pos + m ≥ n.msg.length
      · rw [if_pos hall]
        exact ⟨hout,rfl,fun _ => hout.whole hall⟩
      · rw [if_neg hall]
        exact ⟨hout,rfl,nofun⟩
    · rcases hr with rfl | rfl
      · simp only [hsend]
        exact ⟨hout,trivial,nofun⟩
      · simp only [hsend]
        exact ⟨hout,trivial,nofun⟩

/-- However often a notification is sent, also after it reported success or an error, the
position says what is out. The induction is on the calls. -/
theorem sends_pieces {before : List UInt8} {n : CCNINotification} {s : Sock}
    (h : Pieces.Out before n.msg n.pos s.out) (c : ℕ) :
    Pieces.Out before n.msg (sends c n s).1.pos (sends c n s).2.out ∧
    (sends c n s).1.msg = n.msg := by
  induction c generalizing n s with
  | zero => exact ⟨h,rfl⟩
  | succ c ih =>
    obtain ⟨hout,hmsg,_⟩ := send_faithful h
    rw [← hmsg] at hout
    have hrest := ih hout
    rw [hmsg] at hrest
    exact hrest

theorem sends_faithful (msg : List UInt8) (c : ℕ) (s : Sock) :
    let r := sends c ⟨msg,0⟩ s
    Faithful msg s (r.1.send r.2).2.2 ((r.1.send r.2).1 = .sendok) := by
  intro r
  obtain ⟨hout,hmsg⟩ := @sends_pieces s.out ⟨msg,0⟩ s (Pieces.Out.start s.out msg) c
  rw [← hmsg] at hout
  obtain ⟨hnext,_,hwhole⟩ := send_faithful hout
  rw [hmsg] at hnext hwhole
  exact ⟨⟨_,hnext⟩,hwhole⟩

end CCNINotification

/-- The three senders put the same frame on a socket, the header and as much of the text as the
header counts, with nothing skipped or repeated. Every number of calls and of rounds and every
schedule is covered; what is out inside a call lies between what is out before and behind it. -/
theorem senders_faithful (p : CCNIMsgPacker) (dump : List UInt8) (seq udata : UInt32)
    (k1 k2 : UInt64) (s : Sock) :
    let q := (p.pack (some dump) seq udata k1 k2).2
    let hd : CCNI_HEADER := { p.hd with
      seq := seq, udata := udata, secret1 := k1, secret2 := k2
      datalen := UInt16.ofNat dump.length }
    let flat : CCNI_HEADER := { hd with seq := 0, udata := 0, secret1 := 0, secret2 := 0 }
    let body := dump.take (dump.length % 65536)
    (∀ n, Faithful (hd.toBytes ++ body) s (q.sends n s).2 ((q.sends n s).1.state = .st_sdok)) ∧
    (∀ hdRounds bodyRounds, Faithful (hd.toBytes ++ body) s (q.block_send hdRounds bodyRounds s).2
      (∃ r, (q.block_send hdRounds bodyRounds s).1 = some r ∧ 0 ≤ r)) ∧
    ∃ msg, p.packToFlat (some dump) = some msg ∧ ∀ c,
      let r := CCNINotification.sends c ⟨msg,0⟩ s
      Faithful (flat.toBytes ++ body) s (r.1.send r.2).2.2 ((r.1.send r.2).1 = .sendok) := by
  intro q hd flat body
  have hfilled : q.Filled := CCNIMsgPacker.pack_filled p (some dump) seq udata k1 k2
  have hsending : q.Sending 0 := CCNIMsgPacker.pack_sending p (some dump) seq udata k1 k2
  have hbody : dump.take (UInt16.ofNat dump.length).toNat = body := by
    rw [UInt16.toNat_ofNat']
  have hframe : q.frame = hd.toBytes ++ body := by
    rw [← hbody]
    rfl
  have hflat : p.packToFlat (some dump) = some (flat.toBytes ++ body) := by
    rw [← hbody]
    rfl
  refine ⟨fun n => ?_,fun hdRounds bodyRounds => ?_,_,hflat,fun c => ?_⟩
  · rw [← hframe]
    exact CCNIMsgPacker.sends_faithful hfilled hsending n s
  · rw [← hframe]
    exact CCNIMsgPacker.block_send_faithful hfilled hdRounds bodyRounds s
  · exact CCNINotification.sends_faithful _ c s

end CcniServer
