import CcniServer.Keys.Redeem

/-!
When an expired key is refused. `verifykey` does not look at the time, so that the sweep has
to come first, and the sweep comes only with an insert into a large map.
-/
namespace CcniServer
open CSecKeyMap
namespace Keys
open CSecKeyMap.Call

/-- A call that redeems no key whose time is over. -/
def Fresh (secret_timeout : UInt32) (e : ℤ × Call) : Prop :=
  ∀ k ip item, e.2 = .verifykey k ip (some item) → e.1 ≤ item.tm + secret_timeout.toNat

/-- Whenever the time of a key is over that nobody has redeemed, removed or inserted again, and
`verifykey` is called for it, an insert has met more than `CLEAN_THRESHOLD` keys in between. -/
def Swept (secret_timeout : UInt32) (es : List (ℤ × Call)) : Prop :=
  ∀ (pre mid post : List (ℤ × Call)) (tm t : ℤ) (k : CSecretKey) (u : CUdpSockDataPtr)
    (v : SockaddrIn) (large : Bool) (used : Option CItem),
    es = pre ++ (tm,.insert k u v large true) :: mid ++ (t,.verifykey k v.sin_addr used) :: post →
    (∀ e ∈ mid, ¬ e.2.Adds k ∧ ¬ e.2.Takes k) → tm + secret_timeout.toNat < t →
    ∃ e ∈ mid, e.2.Sweeps ∧ tm + secret_timeout.toNat < e.1

/-- A key whose insert stands is redeemed from its address. -/
theorem redeemed {s s' : Keys} {es : List (ℤ × Call)} {t : ℤ} {k : CSecretKey} {item : CItem}
    {used : Option CItem} (hrec : Recorded es s)
    (hstands : History.Standing (Makes k item) (Ends k (s.map.deadline item)) es)
    (h : Step s (t,.verifykey k item.addr.sin_addr used) s') : used = some item := by
  have hfind := (hrec k item).mpr hstands
  cases h with
  | verifykey hclock hverify =>
    cases used with
    | none => exact absurd rfl ((verifykey_none hverify).2 item hfind)
    | some item' => exact (verifykey_some hverify).1.symm.trans hfind

/-- Keys expire in exactly the runs in which a sweep comes before every late redemption. -/
theorem expire_iff (secret_timeout : UInt32) (t₀ : ℤ) (es : List (ℤ × Call)) (s : Keys)
    (h : Lts.Run Step (start secret_timeout t₀) es s) :
    (∀ e ∈ es, Fresh secret_timeout e) ↔ Swept secret_timeout es := by
  constructor
  · intro hfresh pre mid post tm t k u v large used hes hquiet hlate
    by_contra hnone
    rw [hes] at h
    obtain ⟨w,hbefore,hrest⟩ := h.cut
    cases hrest with
    | cons hs hpost =>
      have hdeadline : w.map.deadline ⟨u,v,tm⟩ = tm + secret_timeout.toNat := by
        rw [deadline,run_timeout hbefore]
        rfl
      have hstands : History.Standing (Makes k ⟨u,v,tm⟩) (Ends k (w.map.deadline ⟨u,v,tm⟩))
          (pre ++ (tm,.insert k u v large true) :: mid) := by
        refine ⟨pre,_,mid,rfl,⟨large,rfl⟩,fun e he hends => ?_⟩
        rw [hdeadline] at hends
        rcases hends with hadds | htakes | hsweeps
        · exact (hquiet e he).1 hadds
        · exact (hquiet e he).2 htakes
        · exact hnone ⟨e,he,hsweeps⟩
      have hused := @redeemed _ _ _ _ _ ⟨u,v,tm⟩ _ (recorded hbefore) hstands hs
      have hmem : (t,.verifykey k v.sin_addr used) ∈ es := by rw [hes]; simp
      have hle := hfresh _ hmem k v.sin_addr ⟨u,v,tm⟩ (by rw [hused])
      exact absurd hle (not_le.mpr hlate)
  · intro hswept e he k ip item hcall
    by_contra hlate
    obtain ⟨before,post,rfl⟩ := List.append_of_mem he
    have he' : e = (e.1,.verifykey k ip (some item)) := by rw [← hcall]
    rw [he'] at h
    obtain ⟨hip,pre,d,mid,rfl,⟨large,rfl⟩,hstood⟩ := found_stands h
    subst hip
    obtain ⟨d,hd,hsweeps⟩ := hswept _ _ _ _ _ _ _ _ _ _ (by rw [← he'])
      (fun d hd => ⟨fun ha => hstood d hd (.inl ha),fun ht => hstood d hd (.inr (.inl ht))⟩)
      (not_le.mp hlate)
    exact hstood d hd (.inr (.inr hsweeps))

/-- A key redeemed in time. -/
theorem expire_iff_in_time :
    (∀ e ∈ handshake 3, Fresh 5 e) ↔ Swept 5 (handshake 3) := by
  obtain ⟨s,hs⟩ := handshake_run 3 (by decide)
  exact expire_iff 5 0 (handshake 3) s hs

/-- With a timeout of 5 seconds a key is redeemed after 1000. -/
theorem expired_key_redeemed :
    (∃ s, Lts.Run Step (start 5 0) (handshake 1000) s) ∧
      ¬ ∀ e ∈ handshake 1000, Fresh 5 e := by
  refine ⟨handshake_run 1000 (by decide),fun h => ?_⟩
  have hle := h _ (List.mem_cons_of_mem _ List.mem_cons_self) _ _ _ rfl
  exact absurd hle (by decide)

end Keys
end CcniServer
