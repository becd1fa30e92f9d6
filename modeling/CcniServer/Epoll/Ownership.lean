import CcniServer.Client.Fragmentation
import CcniServer.Epoll.Threads
import CcniServer.Lib.Token

/-!
Who owns a client: the epoll set in which it is registered, a job of its task, or a thread on
the way from one to the other. The token survives every order of steps in which
`rmFromEpoll` finds a registered client.
-/
namespace CcniServer
namespace CClientTask

/-- A registration, a job that waits in the pool, a listener thread that has removed the client,
or a thread that will retire or arm it. -/
inductive Owner
  | epoll (l : ℕ)
  | job (i : ℕ)
  | listener (l : ℕ)
  | thread (t : Thread)
  deriving DecidableEq

/-- A worker runs the task until it has armed or retired the client; another thread has it only
between `rmFromEpoll` and `addToEpoll`. -/
def holds : Thread → Pc → Bool
  | .worker _, .lock => true
  | .worker _, .body => true
  | .worker _, .retire => true
  | _, .donotify => true
  | _, .assign => true
  | _, .add => true
  | _, _ => false

def Owns (s : CClientTask) : Owner → Prop
  | .epoll l => l ∈ s.epoll
  | .job i => i < s.jobs
  | .listener l => s.listener l = .removed
  | .thread t => holds t (s.pc t) = true

/-- A registration, or a job that is queued or running. -/
def Owner.Counted : Owner → Prop
  | .epoll _ => True
  | .job _ => True
  | .thread (.worker _) => True
  | _ => False

/-- At most one of them, and none once the task is deleted. -/
structure OneOwner (s : CClientTask) : Prop where
  one : ∀ a b, a.Counted → b.Counted → s.Owns a → s.Owns b → a = b
  none : s.io._ctsk = false → ∀ a, a.Counted → ¬ s.Owns a

/-- `rmFromEpoll` finds the epoll set of the client. -/
def Found (s : CClientTask) : Event → Prop
  | .rm _ => s._epfd ≠ none
  | .rmIdle _ => s._epfd ≠ none
  | _ => True

/-- `_epfd` is the epoll set of a registered client, and `-1` while a thread is between
`EPOLL_CTL_ADD` and the store. -/
structure Follows (s : CClientTask) : Prop where
  epfd : ∀ l, s._epfd = some l → l ∈ s.epoll
  store : ∀ t l, s.pc t = .store l → l ∈ s.epoll ∧ s._epfd = none
  storing : ∀ t t' l l', s.pc t = .store l → s.pc t' = .store l' → t = t'

/-- One token, none once the task is deleted. -/
structure Inv (s : CClientTask) : Prop extends Follows s where
  one : Token.AtMostOne s.Owns
  gone : s.io._ctsk = false → ∀ a, ¬ s.Owns a

section
variable {createFromXmlCdata : List UInt8 → Option CXmlNode} {s s' : CClientTask} {e : Event}

theorem new_inv (sock : Sock) : Inv (new sock) := by
  have hpc : ∀ t l, (new sock).pc t ≠ .store l := by
    intro t l
    dsimp only [new]
    split <;> simp
  refine ⟨⟨fun l h => absurd h.symm (Option.some_ne_none l),fun t l h => absurd h (hpc t l),
    fun t _ l _ h => absurd h (hpc t l)⟩,?_,fun h => Bool.noConfusion h⟩
  have hlogin : ∀ a, (new sock).Owns a → a = .thread .login := by
    rintro (l | i | l | t) h
    · cases h
    · cases h
    · cases h
    · by_cases ht : t = .login
      · rw [ht]
      · simp [Owns,new,ht] at h
        cases t <;> cases h
  exact fun a b ha hb => (hlogin a ha).trans (hlogin b hb).symm

/-- A step that moves one thread and changes no other owner. -/
theorem passes_setPc {t : Thread} {p : Pc} {io : CClientIo} {epfd : Option ℕ}
    {iolk lk : Option Thread} (h : holds t p = true → holds t (s.pc t) = true) :
    Token.Passes s.Owns ({ s with
      io := io, _epfd := epfd, _iolk := iolk, _lk := lk }.setPc t p).Owns := by
  apply Token.passes_of_le
  rintro (l | i | l | t') ha
  · exact ha
  · exact ha
  · exact ha
  · by_cases ht : t' = t
    · rw [ht] at ha ⊢
      simp only [Owns,setPc_pc,if_true] at ha
      exact h ha
    · simp only [Owns,setPc_pc,if_neg ht] at ha
      exact ha

/-- A registered client leaves its epoll set. -/
theorem Inv.rmFromEpoll_eq (h : Inv s) {l : ℕ} (hepfd : s._epfd = some l) :
    s.rmFromEpoll = { s with epoll := s.epoll.erase l, _epfd := none } := by
  unfold rmFromEpoll
  rw [hepfd]
  exact if_pos (h.epfd l hepfd)

theorem passes_take {w : ℕ} (hjob : 0 < s.jobs) :
    Token.Passes s.Owns ({ s with jobs := s.jobs - 1 }.setPc (.worker w) .lock).Owns := by
  apply @Token.passes_of_swap _ _ _ _ (.job (s.jobs - 1)) (.thread (.worker w))
  · exact Nat.sub_lt hjob Nat.one_pos
  · exact Nat.lt_irrefl _
  · rintro (l | i | l | t) hx hy ha
    · exact ha
    · exact Nat.lt_of_lt_of_le ha (Nat.sub_le _ _)
    · exact ha
    · have ht : t ≠ .worker w := fun ht => hy (congrArg Owner.thread ht)
      simp only [Owns,setPc_pc,if_neg ht] at ha
      exact ha

theorem passes_pool {l : ℕ} (hpc : s.listener l = .removed) :
    Token.Passes s.Owns ({ s with jobs := s.jobs + 1 }.setListener l .waiting).Owns := by
  apply @Token.passes_of_swap _ _ _ _ (.listener l) (.job s.jobs) hpc
  · simp [Owns]
  · rintro (k | i | k | t) hx hy ha
    · exact ha
    · have hi : i ≠ s.jobs := fun hi => hy (congrArg Owner.job hi)
      exact lt_of_le_of_ne (Nat.lt_succ_iff.mp ha) hi
    · have hk : k ≠ l := fun hk => hx (congrArg Owner.listener hk)
      simp only [Owns,setListener_listener,if_neg hk] at ha
      exact ha
    · exact ha

theorem passes_add {t : Thread} {l : ℕ} (hpc : s.pc t = .add) :
    Token.Passes s.Owns ({ s with epoll := insert l s.epoll }.setPc t (.store l)).Owns := by
  apply @Token.passes_of_swap _ _ _ _ (.thread t) (.epoll l)
  · cases t <;> simp [Owns,hpc,holds]
  · cases t <;> simp [Owns,holds]
  · rintro (k | i | k | t') hx hy ha
    · have hk : k ≠ l := fun hk => hy (congrArg Owner.epoll hk)
      exact Finset.mem_of_mem_insert_of_ne ha hk
    · exact ha
    · exact ha
    · have ht : t' ≠ t := fun ht => hx (congrArg Owner.thread ht)
      simp only [Owns,setPc_pc,if_neg ht] at ha
      exact ha

theorem Inv.passes_rm (h : Inv s) {l : ℕ} (hfound : s._epfd ≠ none) :
    Token.Passes s.Owns (s.rmFromEpoll.setListener l .removed).Owns := by
  obtain ⟨k,hk⟩ := Option.ne_none_iff_exists'.mp hfound
  rw [h.rmFromEpoll_eq hk]
  apply @Token.passes_of_swap _ _ _ _ (.epoll k) (.listener l) (h.epfd k hk)
  · exact Finset.notMem_erase k _
  · rintro (k' | i | l' | t) hx hy ha
    · exact Finset.mem_of_mem_erase ha
    · exact ha
    · have hl : l' ≠ l := fun hl => hy (congrArg Owner.listener hl)
      simp only [Owns,setListener_listener,if_neg hl] at ha
      exact ha
    · exact ha

theorem Inv.passes_rmIdle (h : Inv s) {n : ℕ} (hfound : s._epfd ≠ none) :
    Token.Passes s.Owns (s.rmFromEpoll.setPc (.notifier n) .donotify).Owns := by
  obtain ⟨k,hk⟩ := Option.ne_none_iff_exists'.mp hfound
  rw [h.rmFromEpoll_eq hk]
  apply @Token.passes_of_swap _ _ _ _ (.epoll k) (.thread (.notifier n)) (h.epfd k hk)
  · exact Finset.notMem_erase k _
  · rintro (k' | i | l' | t) hx hy ha
    · exact Finset.mem_of_mem_erase ha
    · exact ha
    · exact ha
    · have ht : t ≠ .notifier n := fun ht => hy (congrArg Owner.thread ht)
      simp only [Owns,setPc_pc,if_neg ht] at ha
      exact ha

/-- Where `rmFromEpoll` finds the client, every step passes the token on. -/
theorem step_passes (h : Inv s) (hfound : Found s e) (hs : Step createFromXmlCdata s e s') :
    Token.Passes s.Owns s'.Owns := by
  cases hs with
  | wait hpc hreg =>
    apply Token.passes_of_le
    rintro (k | i | k | t) ha
    · exact ha
    · exact ha
    · simp only [Owns,setListener_listener] at ha
      split at ha
      · simp at ha
      · exact ha
    · exact ha
  | rm hpc => exact h.passes_rm hfound
  | pool hpc => exact passes_pool hpc
  | take hpc hjob => exact passes_take hjob
  | work hpc => exact passes_setPc (fun _ => by rw [hpc]; rfl)
  | retire hpc => exact passes_setPc (fun _ => by rw [hpc]; rfl)
  | call hpc => exact passes_setPc Bool.noConfusion
  | push hpc =>
    refine passes_setPc (fun hholds => ?_)
    split at hholds <;> cases hholds
  | rmIdle hpc => exact h.passes_rmIdle hfound
  | donotify hpc => exact passes_setPc (fun _ => by rw [hpc]; rfl)
  | @lock t hpc hfree =>
    refine passes_setPc (fun hholds => ?_)
    rw [hpc]
    cases t <;> exact hholds
  | @assign t hpc hfree =>
    refine passes_setPc (fun _ => ?_)
    rw [hpc]
    cases t <;> rfl
  | add hpc hnew => exact passes_add hpc
  | @addFail t hpc =>
    refine passes_setPc (fun hholds => ?_)
    cases t <;> cases hholds
  | @store t l hpc =>
    refine passes_setPc (fun hholds => ?_)
    cases t <;> cases hholds
  | @leave t hpc =>
    refine passes_setPc (fun hholds => ?_)
    cases t <;> cases hholds

theorem Follows.of_pc (h : Follows s) (hepoll : s'.epoll = s.epoll) (hepfd : s'._epfd = s._epfd)
    (hpc : ∀ t l, s'.pc t = .store l → s.pc t = .store l) : Follows s' := by
  refine ⟨?_,fun t l ht => ?_,fun t t' l l' ht ht' => ?_⟩
  · rw [hepoll,hepfd]
    exact h.epfd
  · rw [hepoll,hepfd]
    exact h.store t l (hpc t l ht)
  · exact h.storing t t' l l' (hpc t l ht) (hpc t' l' ht')

theorem store_of_setPc {t : Thread} {p : Pc} (hp : ∀ l, p ≠ .store l) :
    ∀ t' l, (s.setPc t p).pc t' = .store l → s.pc t' = .store l := by
  intro t' l ht'
  rw [setPc_pc] at ht'
  split at ht'
  · exact absurd ht' (hp l)
  · exact ht'

/-- While a thread has the token, the client is not registered. -/
theorem Inv.not_registered (h : Inv s) {t : Thread} (ht : s.Owns (.thread t)) (l : ℕ) :
    l ∉ s.epoll := by
  intro hl
  exact Owner.noConfusion (h.one (.epoll l) (.thread t) hl ht)

theorem Inv.follows_rm (h : Inv s) (hfound : s._epfd ≠ none) : Follows s.rmFromEpoll := by
  obtain ⟨k,hk⟩ := Option.ne_none_iff_exists'.mp hfound
  rw [h.rmFromEpoll_eq hk]
  refine ⟨fun l hl => absurd hl.symm (Option.some_ne_none l),fun t l ht => ?_,h.storing⟩
  exact absurd (h.store t l ht).2 hfound

theorem Inv.follows_add (h : Inv s) {t : Thread} (hpc : s.pc t = .add) (l : ℕ) :
    Follows ({ s with epoll := insert l s.epoll }.setPc t (.store l)) := by
  have hnone : ∀ k, k ∉ s.epoll := by
    apply @Inv.not_registered _ h t
    cases t <;> simp [Owns,hpc,holds]
  have hepfd : s._epfd = none := by
    cases hk : s._epfd with
    | none => rfl
    | some k => exact absurd (h.epfd k hk) (hnone k)
  have honly : ∀ t' l', ({ s with epoll := insert l s.epoll }.setPc t (.store l)).pc t' =
      .store l' → t' = t ∧ l' = l := by
    intro t' l' ht'
    rw [setPc_pc] at ht'
    split at ht'
    · next heq => exact ⟨heq,(Pc.store.inj ht').symm⟩
    · exact absurd (h.store t' l' ht').1 (hnone l')
  refine ⟨fun k hk => absurd (hk.symm.trans hepfd) (Option.some_ne_none k),fun t' l' ht' => ?_,
    fun t' t'' l' l'' ht' ht'' => ?_⟩
  · rw [(honly t' l' ht').2]
    exact ⟨Finset.mem_insert_self l s.epoll,hepfd⟩
  · exact (honly t' l' ht').1.trans (honly t'' l'' ht'').1.symm

theorem Inv.follows_store (h : Inv s) {t : Thread} {l : ℕ} (hpc : s.pc t = .store l) :
    Follows ({ s with _epfd := some l }.setPc t .leave) := by
  have hno : ∀ t' l', ({ s with _epfd := some l }.setPc t .leave).pc t' ≠ .store l' := by
    intro t' l' ht'
    rw [setPc_pc] at ht'
    split at ht'
    · exact Pc.noConfusion ht'
    · next hne => exact hne (h.storing t' t l' l ht' hpc)
  refine ⟨fun k hk => ?_,fun t' l' ht' => absurd ht' (hno t' l'),
    fun t' _ l' _ ht' => absurd ht' (hno t' l')⟩
  rw [← Option.some.inj hk]
  exact (h.store t l hpc).1

theorem step_follows (h : Inv s) (hfound : Found s e) (hs : Step createFromXmlCdata s e s') :
    Follows s' := by
  have hf : Follows s := h.toFollows
  cases hs with
  | wait hpc hreg => exact hf.of_pc rfl rfl (fun _ _ ht => ht)
  | rm hpc => exact (h.follows_rm hfound).of_pc rfl rfl (fun _ _ ht => ht)
  | pool hpc => exact hf.of_pc rfl rfl (fun _ _ ht => ht)
  | take hpc hjob => exact hf.of_pc rfl rfl (store_of_setPc fun _ => Pc.noConfusion)
  | work hpc =>
    refine hf.of_pc rfl rfl (store_of_setPc fun l => ?_)
    split <;> simp
  | retire hpc => exact hf.of_pc rfl rfl (store_of_setPc fun _ => Pc.noConfusion)
  | call hpc => exact hf.of_pc rfl rfl (store_of_setPc fun _ => Pc.noConfusion)
  | push hpc =>
    refine hf.of_pc rfl rfl (store_of_setPc fun l => ?_)
    split <;> simp
  | rmIdle hpc =>
    exact (h.follows_rm hfound).of_pc rfl rfl (store_of_setPc fun _ => Pc.noConfusion)
  | donotify hpc => exact hf.of_pc rfl rfl (store_of_setPc fun _ => Pc.noConfusion)
  | lock hpc hfree => exact hf.of_pc rfl rfl (store_of_setPc fun _ => Pc.noConfusion)
  | assign hpc hfree => exact hf.of_pc rfl rfl (store_of_setPc fun _ => Pc.noConfusion)
  | add hpc hnew => exact h.follows_add hpc _
  | addFail hpc => exact hf.of_pc rfl rfl (store_of_setPc fun _ => Pc.noConfusion)
  | store hpc => exact h.follows_store hpc
  | leave hpc => exact hf.of_pc rfl rfl (store_of_setPc fun _ => Pc.noConfusion)

/-- After the step of the token's owner that ends without a new owner, there is none. -/
theorem Inv.gone_retire (h : Inv s) {w : ℕ} (hpc : s.pc (.worker w) = .retire) {io : CClientIo}
    {iolk : Option Thread} :
    ∀ a, ¬ ({ s with io := io, _iolk := iolk }.setPc (.worker w) .out).Owns a := by
  have hself : s.Owns (.thread (.worker w)) := by simp [Owns,hpc,holds]
  rintro (l | i | l | t) ha
  · exact Owner.noConfusion (h.one (.epoll l) _ ha hself)
  · exact Owner.noConfusion (h.one (.job i) _ ha hself)
  · exact Owner.noConfusion (h.one (.listener l) _ ha hself)
  · simp only [Owns,setPc_pc] at ha
    split at ha
    · next ht =>
      rw [ht] at ha
      cases ha
    · next ht => exact ht (Owner.thread.inj (h.one (.thread t) _ ha hself))

/-- Only the retiring worker deletes the task. -/
theorem step_task (hs : Step createFromXmlCdata s e s') :
    s'.io._ctsk = s.io._ctsk ∨ ∃ w, s.pc (.worker w) = .retire ∧
      s' = { s with io := { s.io with _ctsk := false }, _iolk := none }.setPc (.worker w) .out := by
  cases hs with
  | work hpc => exact .inl (CClientIo.resume_task createFromXmlCdata _ s.io)
  | @retire w hpc => exact .inr ⟨w,hpc,rfl⟩
  | donotify hpc => exact .inl (CClientIo.donotify_task s.io)
  | rm hpc => exact .inl (congrArg CClientIo._ctsk s.rmFromEpoll_io)
  | rmIdle hpc => exact .inl (congrArg CClientIo._ctsk s.rmFromEpoll_io)
  | _ => exact .inl rfl

theorem step_inv (h : Inv s) (hfound : Found s e) (hs : Step createFromXmlCdata s e s') :
    Inv s' := by
  have hpasses := step_passes h hfound hs
  refine ⟨step_follows h hfound hs,h.one.passes hpasses,fun hgone => ?_⟩
  rcases step_task hs with hsame | ⟨w,hpc,rfl⟩
  · exact hpasses.none (h.gone (hsame.symm.trans hgone))
  · exact h.gone_retire hpc

theorem Inv.oneOwner (h : Inv s) : OneOwner s :=
  ⟨fun a b _ _ ha hb => h.one a b ha hb,fun hgone a _ => h.gone hgone a⟩

end

/-- In every order of the threads' steps in which `rmFromEpoll` finds the epoll set of the
client, the client is registered at most once or its task is in the pool at most once, not
both, and when the task is deleted no job of it is left. -/
theorem one_owner (createFromXmlCdata : List UInt8 → Option CXmlNode) (sock : Sock)
    (es : List Event) (s : CClientTask)
    (hrun : Lts.Run (Step createFromXmlCdata) (new sock) es s)
    (hfound : Lts.Meets (Step createFromXmlCdata) Found (new sock) es) : OneOwner s :=
  (hrun.invariant_of_meets (fun _ _ _ h hc hs => step_inv h hc hs) hfound (new_inv sock)).oneOwner

/-- The login arms the client, and the client's first event goes to the pool. -/
theorem one_owner_event :
    ∃ s, Lts.Run (Step fun _ => none) (new ⟨[],[],[],[]⟩)
      [.assign .login,.add .login 0,.store .login,.wait 0,.rm 0,.pool 0] s ∧ OneOwner s := by
  have hrun : Lts.Run (Step fun _ => none) (new ⟨[],[],[],[]⟩)
      [.assign .login,.add .login 0,.store .login,.wait 0,.rm 0,.pool 0] _ :=
    .cons (.assign rfl rfl) (.cons (.add rfl (Finset.notMem_empty 0)) (.cons (.store rfl)
      (.cons (.wait rfl (Finset.mem_insert_self 0 ∅)) (.cons (.rm rfl)
        (.cons (.pool rfl) (.nil _))))))
  refine ⟨_,hrun,one_owner (fun _ => none) ⟨[],[],[],[]⟩ _ _ hrun ?_⟩
  refine ⟨trivial,fun s₁ h₁ => ⟨trivial,fun s₂ h₂ => ⟨trivial,fun s₃ h₃ => ⟨trivial,
    fun s₄ h₄ => ⟨?_,fun s₅ h₅ => ⟨trivial,fun _ _ => trivial⟩⟩⟩⟩⟩⟩
  -- The last step but one finds what the login has stored.
  cases h₄
  cases h₃
  exact Option.some_ne_none _

/-- The event of the client comes between the two steps of `addToEpoll`: the listener finds
nothing to remove, and the client is registered while a job of its task waits in the pool. -/
theorem event_before_store :
    ∃ s, Lts.Run (Step fun _ => none) (new ⟨[],[],[],[]⟩)
      [.assign .login,.add .login 0,.wait 0,.rm 0,.pool 0] s ∧
    s.Owns (.epoll 0) ∧ s.Owns (.job 0) ∧ ¬ OneOwner s := by
  refine ⟨_,.cons (.assign rfl rfl) (.cons (.add rfl (Finset.notMem_empty 0)) (.cons
    (.wait rfl (Finset.mem_insert_self 0 ∅)) (.cons (.rm rfl) (.cons (.pool rfl) (.nil _))))),
    Finset.mem_insert_self 0 ∅,Nat.one_pos,fun h => ?_⟩
  exact Owner.noConfusion
    (h.one (.epoll 0) (.job 0) trivial trivial (Finset.mem_insert_self 0 ∅) Nat.one_pos)

end CClientTask
end CcniServer
