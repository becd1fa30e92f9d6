import CcniServer.Keys.SecKeyMap
import CcniServer.Lib.History
import CcniServer.Lib.Lts

/-!
What the history of the calls says about the map: an entry is there exactly when its insert
stands, and nothing but a redemption, a removal, or a sweep after its time takes it away.
-/
namespace CcniServer
open CSecKeyMap

/-- A call with its arguments and what it answered. An insert also tells whether it found more
than `CLEAN_THRESHOLD` keys, a successful `verifykey` the entry it used. -/
inductive CSecKeyMap.Call
  | insert (k : CSecretKey) (u : CUdpSockDataPtr) (v : SockaddrIn) (large ok : Bool)
  | verifykey (k : CSecretKey) (ip : UInt32) (used : Option CItem)
  | remove (k : CSecretKey)
  | find (k : CSecretKey) (res : Option CItem)

namespace CSecKeyMap.Call

/-- A successful insert of the key. -/
def Adds (k : CSecretKey) : Call → Prop
  | insert k' _ _ _ ok => ok = true ∧ k' = k
  | verifykey .. => False
  | remove _ => False
  | find .. => False

/-- The entry of the key is redeemed or removed. -/
def Takes (k : CSecretKey) : Call → Prop
  | insert .. => False
  | verifykey k' _ used => used.isSome ∧ k' = k
  | remove k' => k' = k
  | find .. => False

def Sweeps : Call → Prop
  | insert _ _ _ large _ => large = true
  | verifykey .. => False
  | remove _ => False
  | find .. => False

end CSecKeyMap.Call

/-- The map and the latest reading of the clock. -/
structure Keys where
  map : CSecKeyMap
  now : ℤ

namespace Keys
open CSecKeyMap.Call

def start (secret_timeout : UInt32) (now : ℤ) : Keys := ⟨.new secret_timeout,now⟩

/-- A call at a time that is not before the calls so far. -/
inductive Step : Keys → ℤ × Call → Keys → Prop
  | insert {s : Keys} {t : ℤ} {k : CSecretKey} {u : CUdpSockDataPtr} {v : SockaddrIn}
      {ok : Bool} {m : CSecKeyMap} (hclock : s.now ≤ t) (h : s.map.insert t k u v = (ok,m)) :
      Step s (t,.insert k u v (s.map.map.size > CLEAN_THRESHOLD) ok) ⟨m,t⟩
  | verifykey {s : Keys} {t : ℤ} {k : CSecretKey} {ip : UInt32} {used : Option CItem}
      {m : CSecKeyMap} (hclock : s.now ≤ t) (h : s.map.verifykey k ip = (used,m)) :
      Step s (t,.verifykey k ip used) ⟨m,t⟩
  | remove {s : Keys} {t : ℤ} {k : CSecretKey} {m : CSecKeyMap} (hclock : s.now ≤ t)
      (h : s.map.remove k = some m) : Step s (t,.remove k) ⟨m,t⟩
  | find {s : Keys} {t : ℤ} {k : CSecretKey} (hclock : s.now ≤ t) :
      Step s (t,.find k (s.map.find k)) ⟨s.map,t⟩

/-- The call that makes an entry. -/
def Makes (k : CSecretKey) (item : CItem) (e : ℤ × Call) : Prop :=
  ∃ large, e = (item.tm,.insert k item.udp item.addr large true)

/-- The calls that end an entry: a new one under its key, its redemption or removal, and a
sweep after its deadline. -/
def Ends (k : CSecretKey) (deadline : ℤ) (e : ℤ × Call) : Prop :=
  e.2.Adds k ∨ e.2.Takes k ∨ e.2.Sweeps ∧ deadline < e.1

/-- The map holds what stands in the history. -/
def Recorded (es : List (ℤ × Call)) (s : Keys) : Prop :=
  ∀ k item, s.map.map.find? k = some item ↔
    History.Standing (Makes k item) (Ends k (s.map.deadline item)) es

section
variable {s s' : Keys} {e : ℤ × Call} {es : List (ℤ × Call)} {secret_timeout : UInt32} {t₀ : ℤ}

theorem Step.clock (h : Step s e s') : s.now ≤ e.1 ∧ s'.now = e.1 := by
  cases h <;> exact ⟨by assumption,rfl⟩

theorem insert_snd_timeout (m : CSecKeyMap) (now : ℤ) (k : CSecretKey) (u : CUdpSockDataPtr)
    (v : SockaddrIn) : (m.insert now k u v).2.secret_timeout = m.secret_timeout := by
  unfold CSecKeyMap.insert
  dsimp only
  split
  · split_ifs <;> exact sweep_timeout
  · exact sweep_timeout

theorem Step.timeout (h : Step s e s') : s'.map.secret_timeout = s.map.secret_timeout := by
  cases h with
  | @insert t k u v ok m hclock h =>
    have hsame := insert_snd_timeout s.map t k u v
    rw [h] at hsame
    exact hsame
  | @verifykey t k ip used m hclock h =>
    cases used with
    | none => rw [(verifykey_none h).1]
    | some item => rw [(verifykey_some h).2.2]
  | remove hclock h => rw [(remove_eq_some.mp h).2]
  | find hclock => rfl

theorem Step.deadline (h : Step s e s') (item : CItem) :
    s'.map.deadline item = s.map.deadline item := by
  rw [CSecKeyMap.deadline,h.timeout,CSecKeyMap.deadline]

theorem start_recorded : Recorded [] (start secret_timeout t₀) := by
  intro k item
  simp [start,CSecKeyMap.new,History.not_standing_nil]

/-- One call, by its answer: each adds to the history what it does to the map. -/
theorem Recorded.step (hrec : Recorded es s) (h : Step s e s') : Recorded (es ++ [e]) s' := by
  intro k item
  rw [History.standing_snoc,h.deadline,← hrec k item]
  cases h with
  | @insert t k' u v ok m hclock h =>
    cases ok with
    | false =>
      rw [(insert_false h).1,find?_sweep]
      simp [Makes,Ends,Adds,Takes,Sweeps]
    | true =>
      rw [(insert_true h).1]
      dsimp only
      rw [OrdMap.find?_insert]
      by_cases hk : k = k'
      · subst hk
        simp only [if_true,Option.some_inj]
        have hends : Ends k (s.map.deadline item)
            (t,.insert k u v (s.map.map.size > CLEAN_THRESHOLD) true) := .inl ⟨rfl,rfl⟩
        simp only [hends,not_true,and_false,or_false]
        constructor
        · rintro rfl
          exact ⟨_,rfl⟩
        · rintro ⟨large,heq⟩
          injection heq with htm hcall
          injection hcall with _ hu hv
          cases item
          simp_all
      · rw [if_neg hk,find?_sweep]
        simp [Makes,Ends,Adds,Takes,Sweeps,Ne.symm hk]
  | @verifykey t k' ip used m hclock h =>
    cases used with
    | none =>
      rw [(verifykey_none h).1]
      simp [Makes,Ends,Adds,Takes,Sweeps]
    | some used =>
      rw [(verifykey_some h).2.2]
      by_cases hk : k = k'
      · simp [Makes,Ends,Adds,Takes,Sweeps,hk]
      · simp [Makes,Ends,Adds,Takes,Sweeps,hk,Ne.symm hk]
  | @remove t k' m hclock h =>
    rw [(remove_eq_some.mp h).2]
    by_cases hk : k = k'
    · simp [Makes,Ends,Adds,Takes,Sweeps,hk]
    · simp [Makes,Ends,Adds,Takes,Sweeps,hk,Ne.symm hk]
  | find hclock => simp [Makes,Ends,Adds,Takes,Sweeps]

theorem recorded (h : Lts.Run Step (start secret_timeout t₀) es s) : Recorded es s :=
  h.history (fun _ _ _ _ hrec hs => hrec.step hs) start_recorded

/-! ### A key admits one login and lives until its time -/

/-- An entry that counts outlives every call that does not take it. -/
theorem Step.keeps {k : CSecretKey} {item : CItem} (h : Step s e s') (hno : ¬ e.2.Takes k)
    (hfind : s.map.map.find? k = some item) (hle : e.1 ≤ s.map.deadline item) :
    s'.map.map.find? k = some item := by
  cases h with
  | @insert t k' u v ok m hclock h =>
    have hstay : (s.map.sweep t).map.find? k = some item := find?_sweep.mpr ⟨hfind,fun _ => hle⟩
    cases ok with
    | false =>
      rw [(insert_false h).1]
      exact hstay
    | true =>
      have hne : k ≠ k' := by
        rintro rfl
        exact absurd ((insert_true h).2 item hfind) (not_lt.mpr hle)
      rw [(insert_true h).1]
      dsimp only
      rw [OrdMap.find?_insert,if_neg hne]
      exact hstay
  | @verifykey t k' ip used m hclock h =>
    cases used with
    | none =>
      rw [(verifykey_none h).1]
      exact hfind
    | some used =>
      have hne : k ≠ k' := fun heq => hno ⟨rfl,heq.symm⟩
      rw [(verifykey_some h).2.2]
      dsimp only
      rw [OrdMap.find?_erase,if_neg hne]
      exact hfind
  | @remove t k' m hclock h =>
    have hne : k ≠ k' := fun heq => hno heq.symm
    rw [(remove_eq_some.mp h).2]
    dsimp only
    rw [OrdMap.find?_erase,if_neg hne]
    exact hfind
  | find hclock => exact hfind

theorem run_timeout (h : Lts.Run Step s es s') :
    s'.map.secret_timeout = s.map.secret_timeout := by
  induction h with
  | nil => rfl
  | cons hs _ ih => exact ih.trans hs.timeout

theorem run_clock (h : Lts.Run Step s es s') : s.now ≤ s'.now := by
  induction h with
  | nil => exact le_refl _
  | cons hs _ ih =>
    obtain ⟨hle,heq⟩ := hs.clock
    exact hle.trans (heq ▸ ih)

/-- Over a run that ends before the deadline an entry stays, unless a call takes it. -/
theorem run_keeps {k : CSecretKey} {item : CItem} (h : Lts.Run Step s es s')
    (hno : ∀ e ∈ es, ¬ e.2.Takes k) (hfind : s.map.map.find? k = some item)
    (hle : s'.now ≤ s.map.deadline item) : s'.map.map.find? k = some item := by
  induction h with
  | nil => exact hfind
  | @cons s u t e es hs hrest ih =>
    have hbefore : e.1 ≤ s.map.deadline item := hs.clock.2 ▸ (run_clock hrest).trans hle
    apply ih (fun d hd => hno d (List.mem_cons_of_mem _ hd))
    · exact hs.keeps (hno e List.mem_cons_self) hfind hbefore
    · rw [hs.deadline]
      exact hle

end

/-- What a redemption finds: the latest insert of its key, which no earlier redemption found,
and which came with an address of the caller's. -/
structure Matches (es : List (ℤ × Call)) (f : ℕ → ℕ) : Prop where
  found : ∀ i t k ip item, es[i]? = some (t,.verifykey k ip (some item)) →
    f i < i ∧ (∃ large, es[f i]? = some (item.tm,.insert k item.udp item.addr large true)) ∧
    item.addr.sin_addr = ip ∧
    ∀ j, f i < j → j < i → ∀ e, es[j]? = some e → ¬ e.2.Adds k
  injective : ∀ i j t t' k k' ip ip' item item',
    es[i]? = some (t,.verifykey k ip (some item)) →
    es[j]? = some (t',.verifykey k' ip' (some item')) → f i = f j → i = j

/-- An inserted entry is there, and its key is refused to others, until its deadline, unless a
redemption or a removal takes it. -/
def Lives (secret_timeout : UInt32) (es : List (ℤ × Call)) (s : Keys) : Prop :=
  ∀ pre mid k item large, es = pre ++ (item.tm,.insert k item.udp item.addr large true) :: mid →
    (∀ e ∈ mid, ¬ e.2.Takes k) → ∀ t, s.now ≤ t → t ≤ item.tm + secret_timeout.toNat →
    s.map.find k = some item ∧ ∀ u v, (s.map.insert t k u v).1 = false

section
variable {es : List (ℤ × Call)} {s : Keys} {secret_timeout : UInt32} {t₀ : ℤ}

theorem lives (h : Lts.Run Step (start secret_timeout t₀) es s) : Lives secret_timeout es s := by
  intro pre mid k item large hes hno t hnow hle
  rw [hes] at h
  obtain ⟨u,hpre,hrest⟩ := h.cut
  cases hrest with
  | @cons _ u' _ _ _ hs hmid =>
    have hrec := (recorded hpre).step hs
    have htimeout : u'.map.secret_timeout = secret_timeout :=
      hs.timeout.trans (run_timeout hpre)
    have hdeadline : u'.map.deadline item = item.tm + secret_timeout.toNat := by
      rw [deadline,htimeout]
    have hfind : u'.map.map.find? k = some item :=
      (hrec k item).mpr (History.standing_snoc.mpr (.inl ⟨large,rfl⟩))
    have hstay : s.map.map.find? k = some item :=
      run_keeps hmid hno hfind (hdeadline ▸ hnow.trans hle)
    have hsame : s.map.deadline item = u'.map.deadline item := by
      rw [deadline,run_timeout hmid,deadline]
    exact ⟨hstay,fun u v => insert_fst hstay (by rw [hsame,hdeadline]; exact hle)⟩

/-- The insert of what a redemption finds stands at that moment. -/
theorem found_stands {before after : List (ℤ × Call)} {t : ℤ} {k : CSecretKey} {ip : UInt32}
    {item : CItem} (h : Lts.Run Step (start secret_timeout t₀)
      (before ++ (t,.verifykey k ip (some item)) :: after) s) :
    item.addr.sin_addr = ip ∧
      History.Standing (Makes k item) (Ends k (item.tm + secret_timeout.toNat)) before := by
  obtain ⟨u,hbefore,hrest⟩ := h.cut
  cases hrest with
  | cons hs _ =>
    cases hs with
    | verifykey hclock hverify =>
      obtain ⟨hfind,hip,-⟩ := verifykey_some hverify
      have htimeout : u.map.secret_timeout = secret_timeout := run_timeout hbefore
      have hstands := (recorded hbefore k item).mp hfind
      rw [deadline,htimeout] at hstands
      exact ⟨hip,hstands⟩

/-- The same by the places of the calls. -/
theorem found_at (h : Lts.Run Step (start secret_timeout t₀) es s) {i : ℕ} {t : ℤ}
    {k : CSecretKey} {ip : UInt32} {item : CItem}
    (hi : es[i]? = some (t,.verifykey k ip (some item))) :
    item.addr.sin_addr = ip ∧ ∃ j, j < i ∧
      (∃ large, es[j]? = some (item.tm,.insert k item.udp item.addr large true)) ∧
      ∀ l, j < l → l < i → ∀ e, es[l]? = some e →
        ¬ Ends k (item.tm + secret_timeout.toNat) e := by
  obtain ⟨hlt,hget⟩ := List.getElem?_eq_some_iff.mp hi
  have hcut : es = es.take i ++ es[i] :: es.drop (i + 1) := by
    rw [List.getElem_cons_drop,List.take_append_drop]
  rw [hcut,hget] at h
  obtain ⟨hip,pre,d,mid,htake,⟨large,hd⟩,hstood⟩ := found_stands h
  have hlen : pre.length + 1 + mid.length = i := by
    have hl := congrArg List.length htake
    rw [List.length_take,List.length_append,List.length_cons] at hl
    omega
  have hplace : ∀ l, l < i → es[l]? = (pre ++ d :: mid)[l]? := by
    intro l hl
    rw [← htake,List.getElem?_take_of_lt hl]
  refine ⟨hip,pre.length,by omega,⟨large,?_⟩,fun l hjl hli e he => ?_⟩
  · rw [hplace _ (by omega),List.getElem?_append_right le_rfl]
    simp [hd]
  · rw [hplace l hli,List.getElem?_append_right hjl.le] at he
    have hpos : l - pre.length = (l - pre.length - 1) + 1 := by omega
    rw [hpos,List.getElem?_cons_succ] at he
    exact hstood e (List.mem_of_getElem? he)

end

/-- Every redemption finds an insert of its own, the latest of its key, and an entry lives until
its deadline. -/
theorem keys_matched (secret_timeout : UInt32) (t₀ : ℤ) (es : List (ℤ × Call)) (s : Keys)
    (h : Lts.Run Step (start secret_timeout t₀) es s) :
    (∃ f, Matches es f) ∧ Lives secret_timeout es s := by
  refine ⟨?_,lives h⟩
  have hplace : ∀ i : ℕ, ∃ j : ℕ, ∀ (t : ℤ) (k : CSecretKey) (ip : UInt32) (item : CItem),
      es[i]? = some (t,.verifykey k ip (some item)) → item.addr.sin_addr = ip ∧ j < i ∧
      (∃ large, es[j]? = some (item.tm,.insert k item.udp item.addr large true)) ∧
      ∀ l, j < l → l < i → ∀ e, es[l]? = some e →
        ¬ Ends k (item.tm + secret_timeout.toNat) e := by
    intro i
    by_cases hv : ∃ t k ip item, es[i]? = some (t,.verifykey k ip (some item))
    · obtain ⟨t,k,ip,item,hi⟩ := hv
      obtain ⟨hip,j,hj⟩ := found_at h hi
      refine ⟨j,fun t' k' ip' item' hi' => ?_⟩
      rw [hi] at hi'
      cases hi'
      exact ⟨hip,hj⟩
    · exact ⟨0,fun t k ip item hi => absurd ⟨t,k,ip,item,hi⟩ hv⟩
  choose f hf using hplace
  refine ⟨f,fun i t k ip item hi => ?_,?_⟩
  · obtain ⟨hip,hlt,hmade,hstood⟩ := hf i t k ip item hi
    exact ⟨hlt,hmade,hip,fun j hj hji e he hadds => hstood j hj hji e he (.inl hadds)⟩
  · -- The later of two redemptions that found one insert would find it ended by the earlier.
    have hno : ∀ (i j : ℕ) (t t' : ℤ) (k k' : CSecretKey) (ip ip' : UInt32) (item item' : CItem),
        es[i]? = some (t,.verifykey k ip (some item)) →
        es[j]? = some (t',.verifykey k' ip' (some item')) → f i = f j → ¬ i < j := by
      intro i j t t' k k' ip ip' item item' hi hj hsame hlt
      obtain ⟨-,hfi,⟨large,hmade⟩,-⟩ := hf i t k ip item hi
      obtain ⟨-,hfj,⟨large',hmade'⟩,hstood⟩ := hf j t' k' ip' item' hj
      rw [hsame,hmade'] at hmade
      have hk : k' = k := by
        injection hmade with hmade
        injection hmade with _ hcall
        injection hcall
      refine hstood i (hsame ▸ hfi) hlt _ hi (.inr (.inl ⟨rfl,hk.symm⟩))
    intro i j t t' k k' ip ip' item item' hi hj hsame
    rcases lt_trichotomy i j with hlt | heq | hgt
    · exact absurd hlt (hno i j _ _ _ _ _ _ _ _ hi hj hsame)
    · exact heq
    · exact absurd hgt (hno j i _ _ _ _ _ _ _ _ hj hi hsame.symm)

def someAddr : SockaddrIn := ⟨0x0100007f,4000⟩

/-- One key is handed out at the time 0 and redeemed at the time `t`. -/
def handshake (t : ℤ) : List (ℤ × Call) :=
  [(0,.insert ⟨1,2⟩ 0 someAddr false true),
   (t,.verifykey ⟨1,2⟩ someAddr.sin_addr (some ⟨0,someAddr,0⟩))]

theorem handshake_run (t : ℤ) (ht : 0 ≤ t) :
    ∃ s, Lts.Run Step (start 5 0) (handshake t) s :=
  ⟨_,.cons (.insert (le_refl 0) rfl) (.cons (.verifykey ht rfl) (.nil _))⟩

/-- Two keys are handed out. The first is refused to another address and redeemed once, the second
is still there. -/
def twoKeys : List (ℤ × Call) :=
  [(0,.insert ⟨1,2⟩ 0 someAddr false true),(1,.insert ⟨3,4⟩ 1 someAddr false true),
   (2,.insert ⟨1,2⟩ 2 someAddr false false),(2,.verifykey ⟨1,2⟩ 7 none),
   (3,.verifykey ⟨1,2⟩ someAddr.sin_addr (some ⟨0,someAddr,0⟩)),
   (3,.verifykey ⟨1,2⟩ someAddr.sin_addr none)]

theorem keys_matched_twoKeys : ∃ s, Lts.Run Step (start 5 0) twoKeys s ∧ (∃ f, Matches twoKeys f) ∧
    Lives 5 twoKeys s ∧ s.map.find ⟨3,4⟩ = some ⟨1,someAddr,1⟩ := by
  obtain ⟨s,hs,hnow⟩ : ∃ s, Lts.Run Step (start 5 0) twoKeys s ∧ s.now = 3 := by
    exact ⟨_,.cons (.insert (by decide) rfl) (.cons (.insert (by decide) rfl)
      (.cons (.insert (by decide) rfl) (.cons (.verifykey (by decide) rfl)
      (.cons (.verifykey (by decide) rfl) (.cons (.verifykey (by decide) rfl) (.nil _)))))),rfl⟩
  obtain ⟨hmatches,hlives⟩ := keys_matched 5 0 twoKeys s hs
  refine ⟨s,hs,hmatches,hlives,?_⟩
  have hno : ∀ e ∈ twoKeys.drop 2, ¬ e.2.Takes ⟨3,4⟩ := by
    simp [twoKeys,Takes]
  exact (hlives (twoKeys.take 1) (twoKeys.drop 2) ⟨3,4⟩ ⟨1,someAddr,1⟩ false rfl hno 3 hnow.le
    (by decide)).1

end Keys
end CcniServer
