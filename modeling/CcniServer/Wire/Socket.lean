import CcniServer.Lib.Bytes

/-!
A connected non-blocking socket: the bytes that still arrive, the bytes the kernel has
accepted, and what it answers to each system call. After the end of a schedule every call
would block.
-/
namespace CcniServer

/-- The kernel's answer to one `read` of at least one byte; a delivery brings at least one. -/
inductive RecvOutcome
  | deliver (k : ℕ)
  | again
  | closed
  | fail
  deriving DecidableEq

/-- The kernel's answer to one `send`; an acceptance takes at least one byte. -/
inductive SendOutcome
  | accept (k : ℕ)
  | again
  | fail
  deriving DecidableEq

structure Sock where
  inp : List UInt8
  recvs : List RecvOutcome
  out : List UInt8
  sends : List SendOutcome

/-- What `read` returns: bytes, zero, or a negative number with `errno`. -/
inductive RecvRes
  | data (bs : List UInt8)
  | eof
  | eagain
  | error

/-- What `send` returns: a positive count, or another number with `errno`. -/
inductive SendRes
  | sent (k : ℕ)
  | eagain
  | error

namespace Sock

/-- A read of no bytes returns zero. -/
def read (s : Sock) (n : ℕ) : RecvRes × Sock :=
  if n = 0 then (.eof,s)
  else
    match s.recvs with
    | [] => (.eagain,s)
    | .deliver k :: rs =>
      if s.inp = [] then (.eagain,{ s with recvs := rs })
      else
        let m := min (max k 1) n
        (.data (s.inp.take m),{ s with inp := s.inp.drop m, recvs := rs })
    | .again :: rs => (.eagain,{ s with recvs := rs })
    | .closed :: rs => (.eof,{ s with recvs := rs })
    | .fail :: rs => (.error,{ s with recvs := rs })

/-- A send of no bytes returns zero and leaves any value in `errno`. -/
def send (s : Sock) (bs : List UInt8) : SendRes × Sock :=
  match s.sends with
  | [] => (.eagain,s)
  | .accept k :: ss =>
    if bs = [] then (.error,{ s with sends := ss })
    else
      let m := min (max k 1) bs.length
      (.sent m,{ s with out := s.out ++ bs.take m, sends := ss })
  | .again :: ss => (.eagain,{ s with sends := ss })
  | .fail :: ss => (.error,{ s with sends := ss })

/-- The peer neither closes nor errs. -/
def Alive (s : Sock) : Prop := ∀ o ∈ s.recvs, o ≠ .closed ∧ o ≠ .fail

instance (s : Sock) : Decidable s.Alive :=
  inferInstanceAs (Decidable (∀ o ∈ s.recvs, o ≠ .closed ∧ o ≠ .fail))

/-- The deliveries of a schedule. -/
def deliveries (rs : List RecvOutcome) : ℕ :=
  rs.countP (fun o => match o with | .deliver _ => true | _ => false)

/-- What reading does to a socket while the peer is alive: `got` is taken from the input, and
the deliveries of the schedule are used up no faster than the input. -/
structure Took (got : List UInt8) (s s' : Sock) : Prop where
  inp : s.inp = got ++ s'.inp
  alive : s'.Alive
  enough : s.inp.length ≤ deliveries s.recvs → s'.inp.length ≤ deliveries s'.recvs
  recvs : s'.recvs.length ≤ s.recvs.length
  used : s.recvs ≠ [] → s'.recvs.length < s.recvs.length
  out : s'.out = s.out
  sends : s'.sends = s.sends

theorem Took.trans {g g' : List UInt8} {s s' s'' : Sock} (h : Took g s s') (h' : Took g' s' s'') :
    Took (g ++ g') s s'' := by
  refine ⟨?_,h'.alive,fun he => h'.enough (h.enough he),h'.recvs.trans h.recvs,?_,
    h'.out.trans h.out,h'.sends.trans h.sends⟩
  · rw [h.inp,h'.inp,List.append_assoc]
  · exact fun hne => lt_of_le_of_lt h'.recvs (h.used hne)

/-- A read brings between one and `n` bytes, or it would block. -/
theorem read_alive {s : Sock} (hs : s.Alive) {n : ℕ} (hn : n ≠ 0) :
    (∃ got s', s.read n = (.data got,s') ∧ got ≠ [] ∧ got.length ≤ n ∧ Took got s s') ∨
    (∃ s', s.read n = (.eagain,s') ∧ Took [] s s') := by
  unfold read
  rw [if_neg hn]
  cases hrecvs : s.recvs with
  | nil => exact .inr ⟨s,rfl,rfl,hs,id,le_refl _,fun h => absurd hrecvs h,rfl,rfl⟩
  | cons o rs =>
    have hrest : ∀ o ∈ rs, o ≠ .closed ∧ o ≠ .fail :=
      fun o' ho' => hs o' (by rw [hrecvs]; exact List.mem_cons_of_mem _ ho')
    have ho := hs o (by rw [hrecvs]; exact List.mem_cons_self)
    have hlt : rs.length < s.recvs.length := by
      rw [hrecvs]
      exact Nat.lt_succ_self _
    cases o with
    | deliver k =>
      by_cases hinp : s.inp = []
      · refine .inr ⟨_,if_pos hinp,rfl,hrest,fun _ => ?_,hlt.le,fun _ => hlt,rfl,rfl⟩
        change s.inp.length ≤ _
        rw [hinp]
        exact Nat.zero_le _
      · left
        have hlen : 0 < s.inp.length := List.length_pos_of_ne_nil hinp
        refine ⟨_,_,if_neg hinp,?_,?_,(List.take_append_drop _ _).symm,hrest,?_,hlt.le,
          fun _ => hlt,rfl,rfl⟩
        · rw [Ne,← List.length_eq_zero_iff,List.length_take]
          omega
        · rw [List.length_take]
          omega
        · intro henough
          have hcount : deliveries s.recvs = deliveries rs + 1 := by simp [hrecvs,deliveries]
          change (s.inp.drop _).length ≤ deliveries rs
          rw [List.length_drop]
          omega
    | again =>
      refine .inr ⟨_,rfl,rfl,hrest,fun henough => ?_,hlt.le,fun _ => hlt,rfl,rfl⟩
      have hcount : deliveries s.recvs = deliveries rs := by simp [hrecvs,deliveries]
      exact hcount ▸ henough
    | closed => exact absurd rfl ho.1
    | fail => exact absurd rfl ho.2

theorem read_out (s : Sock) (n : ℕ) : (s.read n).2.out = s.out := by
  unfold read
  split
  · rfl
  · split
    · rfl
    · split <;> rfl
    · rfl
    · rfl
    · rfl

/-- What a send does: it takes between one and all of the bytes, or none. -/
theorem send_cases (s : Sock) (bs : List UInt8) :
    (∃ k s', s.send bs = (.sent k,s') ∧ 0 < k ∧ k ≤ bs.length ∧ s'.out = s.out ++ bs.take k ∧
      s'.inp = s.inp ∧ s'.recvs = s.recvs) ∨
    (∃ r s', s.send bs = (r,s') ∧ (r = .eagain ∨ r = .error) ∧ s'.out = s.out ∧
      s'.inp = s.inp ∧ s'.recvs = s.recvs) := by
  unfold send
  cases s.sends with
  | nil => exact .inr ⟨_,_,rfl,.inl rfl,rfl,rfl,rfl⟩
  | cons o ss =>
    cases o with
    | accept k =>
      by_cases hbs : bs = []
      · exact .inr ⟨_,_,if_pos hbs,.inr rfl,rfl,rfl,rfl⟩
      · left
        have hlen : 0 < bs.length := List.length_pos_of_ne_nil hbs
        refine ⟨_,_,if_neg hbs,?_,?_,rfl,rfl,rfl⟩ <;> omega
    | again => exact .inr ⟨_,_,rfl,.inl rfl,rfl,rfl,rfl⟩
    | fail => exact .inr ⟨_,_,rfl,.inr rfl,rfl,rfl,rfl⟩

/-- Sends do not err. -/
def Writable (s : Sock) : Prop := ∀ o ∈ s.sends, o ≠ .fail

instance (s : Sock) : Decidable s.Writable :=
  inferInstanceAs (Decidable (∀ o ∈ s.sends, o ≠ .fail))

theorem Writable.rest {s : Sock} (hs : s.Writable) {o : SendOutcome} {ss : List SendOutcome}
    (h : s.sends = o :: ss) : ∀ o' ∈ ss, o' ≠ .fail := by
  intro o' ho'
  exact hs o' (by rw [h]; exact List.mem_cons_of_mem _ ho')

/-- A send of at least one byte, where sends do not err. -/
theorem send_writable {s : Sock} (hs : s.Writable) {bs : List UInt8} (hbs : bs ≠ []) :
    ∃ r s', s.send bs = (r,s') ∧ s'.Writable ∧ (r = .eagain ∨ ∃ k, r = .sent k) := by
  unfold send
  cases hsends : s.sends with
  | nil => exact ⟨_,s,rfl,hs,.inl rfl⟩
  | cons o ss =>
    cases o with
    | accept k => exact ⟨_,_,if_neg hbs,hs.rest hsends,.inr ⟨_,rfl⟩⟩
    | again => exact ⟨_,_,rfl,hs.rest hsends,.inl rfl⟩
    | fail => exact absurd rfl (hs .fail (by rw [hsends]; exact List.mem_cons_self))

/-- The next read of a header brings all of it. -/
def WholeHeader (s : Sock) (size : ℕ) : Prop :=
  size ≤ s.inp.length ∧ ∃ k rs, s.recvs = .deliver k :: rs ∧ size ≤ max k 1

/-- A read brings less than it asks for, unless the kernel has all of it. -/
theorem read_whole {s : Sock} {n : ℕ} (hn : n ≠ 0) {bs : List UInt8} {s' : Sock}
    (hread : s.read n = (.data bs,s')) : n ≤ bs.length ↔ s.WholeHeader n := by
  unfold read at hread
  rw [if_neg hn] at hread
  cases hrecvs : s.recvs with
  | nil => simp [hrecvs] at hread
  | cons o rs =>
    cases o with
    | deliver k =>
      simp only [hrecvs] at hread
      split at hread
      · simp at hread
      · next hinp =>
        have hbs : bs = s.inp.take (min (max k 1) n) := by
          injection hread with hdata _
          injection hdata with hdata
          exact hdata.symm
        have hlen : bs.length = min (min (max k 1) n) s.inp.length := by
          rw [hbs,List.length_take]
        constructor
        · intro hle
          exact ⟨by omega,k,rs,hrecvs,by omega⟩
        · rintro ⟨hle,k',rs',hcons,hk'⟩
          rw [hrecvs] at hcons
          injection hcons with hk _
          injection hk with hk
          omega
    | again => simp [hrecvs] at hread
    | closed => simp [hrecvs] at hread
    | fail => simp [hrecvs] at hread

theorem read_length {s : Sock} {n : ℕ} {bs : List UInt8} {s' : Sock}
    (hread : s.read n = (.data bs,s')) : bs.length ≤ n := by
  unfold read at hread
  split at hread
  · simp at hread
  · split at hread
    · simp at hread
    · split at hread
      · simp at hread
      · injection hread with hdata _
        injection hdata with hdata
        rw [← hdata,List.length_take]
        omega
    · simp at hread
    · simp at hread
    · simp at hread

theorem read_again_not_whole {s s' : Sock} {n : ℕ} (hn : n ≠ 0)
    (hread : s.read n = (.eagain,s')) : ¬ s.WholeHeader n := by
  rintro ⟨hle,k,rs,hrecvs,hk⟩
  have hinp : s.inp ≠ [] := by
    rw [← List.length_pos_iff_ne_nil]
    omega
  simp [read,hn,hrecvs,hinp] at hread

end Sock
end CcniServer
