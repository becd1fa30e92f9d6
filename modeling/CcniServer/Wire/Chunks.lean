import CcniServer.Wire.RoundTrip

/-!
The parser and the pieces in which a stream arrives. What it holds is a function of the bytes
that it has consumed, and of the headers it accepts it reads all but those that announce no body.
-/
namespace CcniServer
namespace CCNIMsgParser

/-- The bytes of the header that have arrived. -/
def hdBytes (p : CCNIMsgParser) : List UInt8 :=
  if p.state = .st_rdhd then p.hd.take p.pos else p.hd

/-- The bytes of the body that have arrived. -/
def bdBytes (p : CCNIMsgParser) : List UInt8 := p.data.getD []

/-- The bytes that calls of `read` have taken off a socket. -/
def consumed (s s' : Sock) : ℕ := s.inp.length - s'.inp.length

def Failed (p : CCNIMsgParser) : Prop := p.state = .st_rderror ∨ p.state = .st_hderror

/-- A parser that has consumed the bytes `bs`; one that gave up after its header has no body. -/
structure Consumed (bs : List UInt8) (p : CCNIMsgParser) : Prop where
  parsed : Parsed bs p
  noBody : p.Failed → p.bdBytes = []

section
variable {bs : List UInt8} {p p' : CCNIMsgParser} {s : Sock}

/-! ### A function of the bytes -/

theorem consumed_new : Consumed [] new := ⟨parsed_new,fun _ => rfl⟩

theorem readRdbd_failed (h : (p._readRdbd s).1.Failed) : (p._readRdbd s).1.data = p.data := by
  unfold _readRdbd at h ⊢
  split
  · rfl
  · rfl
  · rfl
  · next hread =>
    simp only [hread] at h
    split at h
    · rcases h with h | h <;> cases h
    · rcases h with h | h <;> cases h

/-- A header that is read to its end makes room for a body, which is empty so far. -/
theorem readRdhd_failed (h : (p._readRdhd s).1.Failed) :
    (p._readRdhd s).1.data = p.data ∨ (p._readRdhd s).1.data = some [] := by
  unfold _readRdhd at h ⊢
  split
  · exact .inl rfl
  · exact .inl rfl
  · exact .inl rfl
  · next hread =>
    simp only [hread] at h ⊢
    split
    · exact .inl rfl
    · next hlong =>
      rw [if_neg hlong] at h
      split
      · next hgood =>
        rw [if_pos hgood] at h
        exact .inr (readRdbd_failed h)
      · exact .inl rfl

theorem Parsed.length_failed (hp : Parsed bs p) (h : p.Failed) : bs.length = CCNI_HEADER.size := by
  cases hp with
  | noBody _ _ hlen => exact hlen
  | refused _ _ hlen => exact hlen
  | inHeader h' => simp [Failed,h'] at h
  | inBody h' => simp [Failed,h'] at h
  | complete h' => simp [Failed,h'] at h

theorem read_consumed (hs : s.Alive) (h : Consumed bs p) (hr : p.Reading) :
    ∃ got, s.Took got (p.read s).2 ∧ Consumed (bs ++ got) (p.read s).1 := by
  obtain ⟨got,htook,hparsed⟩ := read_parsed hs h.parsed hr
  refine ⟨got,htook,hparsed,fun herror => ?_⟩
  have hlen := hparsed.length_failed herror
  unfold bdBytes
  unfold read at herror ⊢
  rcases hr with hstate | hstate
  · rw [hstate] at herror ⊢
    rcases readRdhd_failed herror with hdata | hdata
    · rw [hdata,(h.parsed.in_header hstate).2,Option.getD_none]
    · rw [hdata,Option.getD_some]
  · rw [hstate] at herror ⊢
    rw [readRdbd_failed herror,(h.parsed.in_body hstate).2,Option.getD_some]
    apply List.drop_of_length_le
    rw [← hlen,List.length_append]
    exact Nat.le_add_right _ _

/-- The induction is on the calls; the socket loses what the parser gets. -/
theorem reads_consumed {n : ℕ} (hs : s.Alive) (h : Consumed bs p) :
    ∃ got, s.inp = got ++ (reads n p s).2.inp ∧ Consumed (bs ++ got) (reads n p s).1 := by
  induction n generalizing bs p s with
  | zero =>
    refine ⟨[],rfl,?_⟩
    rw [List.append_nil]
    exact h
  | succ n ih =>
    by_cases hr : p.Reading
    · obtain ⟨got,htook,hread⟩ := read_consumed hs h hr
      obtain ⟨got',hinp,hreads⟩ := ih htook.alive hread
      refine ⟨got ++ got',?_,?_⟩
      · rw [htook.inp,List.append_assoc]
        exact congrArg (got ++ ·) hinp
      · rw [← List.append_assoc]
        exact hreads
    · rw [reads_done hr]
      refine ⟨[],rfl,?_⟩
      rw [List.append_nil]
      exact h

/-- The consumed bytes are the front of the stream, and the rest is left. -/
theorem reads_begin (hs : s.Alive) (n : ℕ) :
    Consumed (s.inp.take (consumed s (reads n new s).2)) (reads n new s).1 ∧
      (s.inp.take (consumed s (reads n new s).2)).length = consumed s (reads n new s).2 ∧
      (reads n new s).2.inp = s.inp.drop (consumed s (reads n new s).2) := by
  obtain ⟨got,hinp,hreads⟩ := @reads_consumed [] new s n hs consumed_new
  have hgot : consumed s (reads n new s).2 = got.length := by
    rw [consumed,hinp,List.length_append,Nat.add_sub_cancel]
  have htake : s.inp.take (consumed s (reads n new s).2) = got := by
    rw [hgot,hinp,List.take_left]
  have hdrop : s.inp.drop (consumed s (reads n new s).2) = (reads n new s).2.inp := by
    rw [hgot,hinp,List.drop_left]
  rw [htake,hdrop]
  exact ⟨hreads,hgot.symm,rfl⟩

theorem Parsed.header_eq (hp : Parsed bs p) (h : p.state ≠ .st_rdhd) :
    p.hd = bs.take CCNI_HEADER.size ∧ CCNI_HEADER.size ≤ bs.length := by
  cases hp with
  | inHeader h' => exact absurd h' h
  | refused _ hhd hlen => exact ⟨hhd.trans (List.take_of_length_le hlen.le).symm,hlen.ge⟩
  | noBody _ hhd hlen => exact ⟨hhd.trans (List.take_of_length_le hlen.le).symm,hlen.ge⟩
  | inBody _ hhd _ hpos => exact ⟨hhd,by omega⟩
  | complete _ hhd _ hlen => exact ⟨hhd,by omega⟩

/-- What the received bytes of a stream say about the state of its parser. -/
def stateOf (bs : List UInt8) : State :=
  let hd := CCNI_HEADER.ofBytes (bs.take CCNI_HEADER.size)
  if bs.length < CCNI_HEADER.size then .st_rdhd
  else if hd.verify = false then .st_hderror
  else if hd.datalen.toNat = 0 then .st_rderror
  else if bs.length < CCNI_HEADER.size + hd.datalen.toNat then .st_rdbd
  else .st_rdok

theorem Parsed.state_eq (hp : Parsed bs p) : p.state = stateOf bs := by
  have hhead : p.state ≠ .st_rdhd → CCNI_HEADER.ofBytes (bs.take CCNI_HEADER.size) = p.header :=
    fun h => congrArg CCNI_HEADER.ofBytes (hp.header_eq h).1.symm
  unfold stateOf
  cases hp with
  | inHeader hstate _ hlt =>
    rw [if_pos hlt]
    exact hstate
  | refused hstate _ hlen hbad =>
    rw [hhead (by simp [hstate]),if_neg (by omega),if_pos hbad]
    exact hstate
  | noBody hstate _ hlen hgood hzero =>
    rw [hhead (by simp [hstate]),if_neg (by omega),if_neg (by simp [hgood]),if_pos hzero]
    exact hstate
  | inBody hstate _ hgood hpos _ hlt =>
    rw [hhead (by simp [hstate]),if_neg (by omega),if_neg (by simp [hgood]),if_neg (by omega),
      if_pos (by omega)]
    exact hstate
  | complete hstate _ hgood hlen _ hpos =>
    rw [hhead (by simp [hstate]),if_neg (by omega),if_neg (by simp [hgood]),if_neg (by omega),
      if_neg (by omega)]
    exact hstate

theorem Consumed.hdBytes_eq (h : Consumed bs p) : p.hdBytes = bs.take CCNI_HEADER.size := by
  unfold hdBytes
  by_cases hstate : p.state = .st_rdhd
  · rw [if_pos hstate]
    cases h.parsed with
    | inHeader _ hpos hlt _ hfront => rw [hpos,hfront,List.take_of_length_le hlt.le]
    | refused h' => simp [h'] at hstate
    | noBody h' => simp [h'] at hstate
    | inBody h' => simp [h'] at hstate
    | complete h' => simp [h'] at hstate
  · rw [if_neg hstate]
    exact (h.parsed.header_eq hstate).1

theorem Consumed.bdBytes_eq (h : Consumed bs p) : p.bdBytes = bs.drop CCNI_HEADER.size := by
  cases h.parsed with
  | inHeader _ _ hlt _ _ hdata =>
    rw [bdBytes,hdata,List.drop_of_length_le hlt.le]
    rfl
  | refused h' _ hlen => rw [h.noBody (.inr h'),List.drop_of_length_le hlen.le]
  | noBody h' _ hlen => rw [h.noBody (.inl h'),List.drop_of_length_le hlen.le]
  | inBody _ _ _ _ hdata => rw [bdBytes,hdata,Option.getD_some]
  | complete _ _ _ _ hdata => rw [bdBytes,hdata,Option.getD_some]

/-- A complete message was read to the end of its body and no further. -/
theorem Consumed.complete (h : Consumed bs p) (hok : p.state = .st_rdok) :
    p.header.verify = true ∧ bs.length = CCNI_HEADER.size + p.header.datalen.toNat ∧
      p.header = .ofBytes (bs.take CCNI_HEADER.size) ∧
      p.bdBytes = (bs.drop CCNI_HEADER.size).take p.header.datalen.toNat := by
  have hbody := h.bdBytes_eq
  cases h.parsed with
  | complete _ hhd hgood hlen =>
    refine ⟨hgood,hlen,congrArg CCNI_HEADER.ofBytes hhd,?_⟩
    rw [hbody,List.take_of_length_le]
    rw [List.length_drop]
    omega
  | inHeader h' => simp [h'] at hok
  | refused h' => simp [h'] at hok
  | noBody h' => simp [h'] at hok
  | inBody h' => simp [h'] at hok

end

/-- A complete message is the frame at the front of the stream, and what follows the frame is still
in the socket. -/
theorem reads_complete {s : Sock} (hs : s.Alive) {n : ℕ} (hok : (reads n new s).1.state = .st_rdok) :
    (reads n new s).1.header.verify = true ∧
    (reads n new s).1.header = .ofBytes (s.inp.take CCNI_HEADER.size) ∧
    consumed s (reads n new s).2 = CCNI_HEADER.size + (reads n new s).1.header.datalen.toNat ∧
    (reads n new s).1.bdBytes = (s.inp.drop CCNI_HEADER.size).take
      (reads n new s).1.header.datalen.toNat ∧
    (reads n new s).2.inp = s.inp.drop
      (CCNI_HEADER.size + (reads n new s).1.header.datalen.toNat) := by
  obtain ⟨hp,hlen,hrest⟩ := reads_begin hs n
  obtain ⟨hgood,hsize,hheader,hbody⟩ := hp.complete hok
  rw [hlen] at hsize
  refine ⟨hgood,?_,hsize,?_,hsize ▸ hrest⟩
  · rw [hheader,List.take_take,Nat.min_eq_left (by omega)]
  · rw [hbody,hsize,List.drop_take,Nat.add_sub_cancel_left,List.take_take,Nat.min_self]

/-- Two schedules of one stream leave parsers that have consumed the same number of its bytes in the
same state, with the same bytes of the header and of the body. -/
theorem chunks_agree (s₁ s₂ : Sock) (h₁ : s₁.Alive) (h₂ : s₂.Alive) (hinp : s₁.inp = s₂.inp)
    (n₁ n₂ : ℕ)
    (hsame : consumed s₁ (reads n₁ new s₁).2 = consumed s₂ (reads n₂ new s₂).2) :
    ((reads n₁ new s₁).1.state = (reads n₂ new s₂).1.state ∧
      (reads n₁ new s₁).1.hdBytes = (reads n₂ new s₂).1.hdBytes ∧
      (reads n₁ new s₁).1.bdBytes = (reads n₂ new s₂).1.bdBytes) ∧
    ((reads n₁ new s₁).1.state = .st_rdok →
      (reads n₁ new s₁).1.header.verify = true ∧
      (reads n₁ new s₁).1.header = .ofBytes (s₁.inp.take CCNI_HEADER.size) ∧
      consumed s₁ (reads n₁ new s₁).2 =
        CCNI_HEADER.size + (reads n₁ new s₁).1.header.datalen.toNat ∧
      (reads n₁ new s₁).1.bdBytes = (s₁.inp.drop CCNI_HEADER.size).take
        (reads n₁ new s₁).1.header.datalen.toNat ∧
      (reads n₁ new s₁).2.inp = s₁.inp.drop
        (CCNI_HEADER.size + (reads n₁ new s₁).1.header.datalen.toNat)) := by
  have hp₁ := (reads_begin h₁ n₁).1
  have hp₂ := (reads_begin h₂ n₂).1
  rw [← hsame,← hinp] at hp₂
  refine ⟨⟨?_,?_,?_⟩,reads_complete h₁⟩
  · rw [hp₁.parsed.state_eq,hp₂.parsed.state_eq]
  · rw [hp₁.hdBytes_eq,hp₂.hdBytes_eq]
  · rw [hp₁.bdBytes_eq,hp₂.bdBytes_eq]

/-- A frame of one byte, cut after the header and not cut at all. -/
theorem chunks_agree_cut :
    let wire := { CCNI_HEADER.new with datalen := 1 }.toBytes ++ [65,66]
    (reads 2 new ⟨wire,[.deliver 32,.again,.deliver 7],[],[]⟩).1.state =
      (reads 1 new ⟨wire,[.deliver 40,.deliver 1],[],[]⟩).1.state :=
  (chunks_agree ⟨{ CCNI_HEADER.new with datalen := 1 }.toBytes ++ [65,66],
      [.deliver 32,.again,.deliver 7],[],[]⟩
    ⟨{ CCNI_HEADER.new with datalen := 1 }.toBytes ++ [65,66],[.deliver 40,.deliver 1],[],[]⟩
    (by decide) (by decide) rfl 2 1 (by decide)).1.1

/-! ### Blame -/

/-- Whatever way the frames of a header arrive, the parser never blames the connection, has a frame
as soon as all of it was delivered, and gets there if the kernel delivers enough. -/
def Blameless (hd : CCNI_HEADER) : Prop :=
  ∀ (body more : List UInt8) (s : Sock) (n : ℕ), body.length = hd.datalen.toNat → s.Alive →
    s.inp = hd.toBytes ++ body ++ more →
    (reads n new s).1.state ≠ .st_rderror ∧
    (CCNI_HEADER.size + hd.datalen.toNat ≤ consumed s (reads n new s).2 →
      (reads n new s).1.state = .st_rdok) ∧
    (s.inp.length ≤ Sock.deliveries s.recvs → s.recvs.length ≤ n →
      (reads n new s).1.state = .st_rdok)

theorem blameless_of_body {hd : CCNI_HEADER} (hgood : hd.verify = true)
    (hzero : hd.datalen.toNat ≠ 0) : Blameless hd := by
  intro body more s n hbody hs hinp
  obtain ⟨got,hgot,hreads⟩ := @reads_consumed [] new s n hs consumed_new
  have hstands := hreads.parsed.stands hbody (hinp ▸ hgot)
  have hconsumed : consumed s (reads n new s).2 = ([] ++ got).length := by
    rw [consumed,hgot,List.length_append,Nat.add_sub_cancel,List.nil_append]
  have hframe : CCNI_HEADER.size + hd.datalen.toNat ≤ s.inp.length := by
    simp only [hinp,List.length_append,CCNI_HEADER.length_toBytes]
    omega
  refine ⟨?_,fun hall => ?_,fun henough hn => ?_⟩
  · cases hstands with
    | noBody _ h => exact absurd h hzero
    | inHeader h => simp [h]
    | refused h => simp [h]
    | inBody h => simp [h]
    | complete h => simp [h]
  · rw [hconsumed] at hall
    cases hstands with
    | noBody _ h => exact absurd h hzero
    | refused _ h => exact absurd (hgood.symm.trans h) Bool.noConfusion
    | inHeader _ h => omega
    | inBody _ h => omega
    | complete h => exact h
  · -- A parser that still reads would have read all of the stream.
    obtain ⟨got',hgot',-,hend⟩ := reads_parsed hs parsed_new henough hn
    have hall : (reads n new s).1.Reading → ([] ++ got).length = s.inp.length := by
      intro hr
      rw [hgot,hend hr,List.append_nil,List.nil_append]
    cases hstands with
    | noBody _ h => exact absurd h hzero
    | refused _ h => exact absurd (hgood.symm.trans h) Bool.noConfusion
    | inHeader h hlt =>
      have hlen := hall (.inl h)
      omega
    | inBody h hlt =>
      have hlen := hall (.inr h)
      omega
    | complete h => exact h

theorem stateOf_noBody {hd : CCNI_HEADER} (hgood : hd.verify = true) (hzero : hd.datalen.toNat = 0) :
    stateOf hd.toBytes = .st_rderror := by
  have hlen := CCNI_HEADER.length_toBytes hd
  have hhead : CCNI_HEADER.ofBytes (hd.toBytes.take CCNI_HEADER.size) = hd := by
    rw [List.take_of_length_le hlen.le,CCNI_HEADER.ofBytes_toBytes]
  unfold stateOf
  rw [hhead,if_neg (by omega),if_neg (by simp [hgood]),if_pos hzero]

/-- A header that announces no body is taken for a broken connection. -/
theorem reads_noBody {hd : CCNI_HEADER} (hgood : hd.verify = true) (hzero : hd.datalen.toNat = 0) :
    (reads hd.toBytes.length new (Sock.stream hd.toBytes)).1.state = .st_rderror := by
  have hs := delivers_stream hd.toBytes
  obtain ⟨got,hgot,hparsed,hend⟩ := reads_parsed hs.alive parsed_new (hs.inp ▸ hs.enough)
    (length_recvs_stream hd.toBytes).le
  have hlen : CCNI_HEADER.size = got.length +
      (reads hd.toBytes.length new (Sock.stream hd.toBytes)).2.inp.length := by
    rw [← List.length_append,← hgot,hs.inp,CCNI_HEADER.length_toBytes]
  have hrest : (reads hd.toBytes.length new (Sock.stream hd.toBytes)).2.inp = [] := by
    by_cases hr : (reads hd.toBytes.length new (Sock.stream hd.toBytes)).1.Reading
    · exact hend hr
    · have hsize := (hparsed.header_eq fun h => hr (.inl h)).2
      rw [List.nil_append] at hsize
      apply List.length_eq_zero_iff.mp
      omega
  rw [hrest,List.append_nil,hs.inp] at hgot
  rw [hparsed.state_eq,List.nil_append,← hgot,stateOf_noBody hgood hzero]

/-- The parser blames no connection for the frames of a header exactly when the header announces a
body. -/
theorem blameless_iff (hd : CCNI_HEADER) (hgood : hd.verify = true) :
    Blameless hd ↔ hd.datalen.toNat ≠ 0 := by
  refine ⟨fun h hzero => ?_,blameless_of_body hgood⟩
  have hs := delivers_stream hd.toBytes
  have hnone := (h [] [] (Sock.stream hd.toBytes) hd.toBytes.length hzero.symm hs.alive
    (by rw [hs.inp,List.append_nil,List.append_nil])).1
  exact hnone (reads_noBody hgood hzero)

theorem blameless_oneByte : Blameless { CCNI_HEADER.new with datalen := 1 } :=
  (blameless_iff { CCNI_HEADER.new with datalen := 1 } (by decide)).mpr (by decide)

/-- The header of an empty frame passes the check, and the parser reports a read error. -/
theorem empty_frame_blamed : CCNI_HEADER.new.verify = true ∧ ¬ Blameless CCNI_HEADER.new := by
  refine ⟨rfl,fun h => ?_⟩
  have hs := delivers_stream CCNI_HEADER.new.toBytes
  exact (h [] [] (Sock.stream CCNI_HEADER.new.toBytes) 32 rfl hs.alive
    (by rw [hs.inp,List.append_nil,List.append_nil])).1 (by decide)

end CCNIMsgParser
end CcniServer
