import CcniServer.Lib.Lts
import Mathlib.Data.Set.Card

/-! Guests of a house of rooms with two-sided tables. What a guest may do next depends on where
everybody is, and nothing but the places of the guests and their names is recorded. -/

namespace Seating

inductive Side
  | owner
  | opponent
  deriving DecidableEq, Repr

def Side.other : Side → Side
  | .owner => .opponent
  | .opponent => .owner

@[simp] theorem Side.other_other (side : Side) : side.other.other = side := by
  cases side <;> rfl

inductive Phase
  | waiting
  | ready
  | playing
  deriving DecidableEq, Repr

inductive Role
  | player (side : Side) (phase : Phase)
  | watcher
  deriving DecidableEq, Repr

/-- Where a guest is. A table is known by its room and its number there. -/
inductive Place (ρ κ : Type*)
  | offline
  | online
  | room (r : ρ)
  | table (r : ρ) (k : κ) (role : Role)
  deriving DecidableEq

def Place.room? {ρ κ : Type*} : Place ρ κ → Option ρ
  | offline => none
  | online => none
  | room r => some r
  | table r _ _ => some r

/-- How many guests a room holds, for the rooms there are, and how many may watch a table. -/
structure Rules (ρ : Type*) where
  capacity : ρ → Option ℕ
  watchers : ℕ

inductive Move (γ ρ κ ν : Type*)
  | stay
  | arrive (c : γ) (u : ν)
  | enter (c : γ) (r : ρ)
  | leave (c : γ)
  | found (c : γ)
  | join (c : γ) (k : κ)
  | watch (c : γ) (k : κ)
  | rise (c : γ)
  | ready (c : γ)
  | vanish (c : γ)

end Seating

structure Seating (γ ρ κ ν : Type*) where
  place : γ → Seating.Place ρ κ
  name : γ → ν

namespace Seating
variable {γ ρ κ ν : Type*} {rules : Rules ρ} {s t : Seating γ ρ κ ν} {c d : γ} {r : ρ} {k : κ}

@[ext] theorem ext (hp : ∀ c, s.place c = t.place c) (hn : ∀ c, s.name c = t.name c) : s = t := by
  cases s
  cases t
  congr 1
  · funext c
    exact hp c
  · funext c
    exact hn c

/-- Nobody is there. -/
def start (name : γ → ν) : Seating γ ρ κ ν := ⟨fun _ => .offline,name⟩

def inRoom (s : Seating γ ρ κ ν) (r : ρ) : Set γ := {c | (s.place c).room? = some r}

def atTable (s : Seating γ ρ κ ν) (r : ρ) (k : κ) : Set γ := {c | ∃ role, s.place c = .table r k role}

def watching (s : Seating γ ρ κ ν) (r : ρ) (k : κ) : Set γ := {c | s.place c = .table r k .watcher}

/-- A side of a table has its player. -/
def Taken (s : Seating γ ρ κ ν) (r : ρ) (k : κ) (side : Side) : Prop :=
  ∃ c phase, s.place c = .table r k (.player side phase)

/-- A guest who is there goes by the name. -/
def Named (s : Seating γ ρ κ ν) (u : ν) : Prop := ∃ c, s.place c ≠ .offline ∧ s.name c = u

def Playing (s : Seating γ ρ κ ν) (c : γ) : Prop :=
  ∃ r k side, s.place c = .table r k (.player side .playing)

/-- The places that a guest who does not vanish goes to from a place. -/
inductive Way : Place ρ κ → Place ρ κ → Prop
  | arrive : Way .offline .online
  | enter (r : ρ) : Way .online (.room r)
  | leave (r : ρ) : Way (.room r) .online
  | sit (r : ρ) (k : κ) (side : Side) : Way (.room r) (.table r k (.player side .waiting))
  | watch (r : ρ) (k : κ) : Way (.room r) (.table r k .watcher)
  | rise {r : ρ} {k : κ} {role : Role} (hplay : ∀ side, role ≠ .player side .playing) :
      Way (.table r k role) (.room r)
  | ready (r : ρ) (k : κ) (side : Side) :
      Way (.table r k (.player side .waiting)) (.table r k (.player side .ready))
  | begins {r : ρ} {k : κ} {side : Side} {phase : Phase} (hplay : phase ≠ .playing) :
      Way (.table r k (.player side phase)) (.table r k (.player side .playing))

/-- The guest whose move it is. -/
def Move.guest? : Move γ ρ κ ν → Option γ
  | stay => none
  | arrive c _ => some c
  | enter c _ => some c
  | leave c => some c
  | found c => some c
  | join c _ => some c
  | watch c _ => some c
  | rise c => some c
  | ready c => some c
  | vanish c => some c

theorem Playing.no_way {p : Place ρ κ} (h : s.Playing c) : ¬ Way (s.place c) p := by
  obtain ⟨r,k,side,hc⟩ := h
  rw [hc]
  intro hway
  cases hway with
  | rise hplay => exact hplay side rfl
  | begins hplay => exact hplay rfl

/-- The guests keep the rules: no room holds more than it can, no table has more watchers than
it may, a side has one player, a game begins as soon as both players are ready, and two guests
who are there go by two names. -/
structure Orderly (rules : Rules ρ) (s : Seating γ ρ κ ν) : Prop where
  rooms : ∀ c r, (s.place c).room? = some r → ∃ n, rules.capacity r = some n
  capacity : ∀ r n, rules.capacity r = some n → (s.inRoom r).encard ≤ n
  watchers : ∀ r k, (s.watching r k).encard ≤ rules.watchers
  sides : ∀ c d r k side phase phase', s.place c = .table r k (.player side phase) →
    s.place d = .table r k (.player side phase') → c = d
  ready : ∀ c d r k side, s.place c = .table r k (.player side .ready) →
    s.place d ≠ .table r k (.player side.other .ready)
  names : ∀ c d, s.place c ≠ .offline → s.place d ≠ .offline → s.name c = s.name d → c = d

theorem start_orderly (name : γ → ν) : (start name : Seating γ ρ κ ν).Orderly rules := by
  refine ⟨nofun,fun r n _ => ?_,fun r k => ?_,nofun,nofun,?_⟩
  · simp [inRoom,start,Place.room?]
  · simp [watching,start]
  · exact fun c d hc => absurd rfl hc

variable [DecidableEq γ]

def put (s : Seating γ ρ κ ν) (c : γ) (p : Place ρ κ) : Seating γ ρ κ ν :=
  { s with place := Function.update s.place c p }

def rename (s : Seating γ ρ κ ν) (c : γ) (u : ν) : Seating γ ρ κ ν :=
  { s with name := Function.update s.name c u }

@[simp] theorem place_put (s : Seating γ ρ κ ν) (c d : γ) (p : Place ρ κ) :
    (s.put c p).place d = if d = c then p else s.place d := by
  simp [put,Function.update_apply]

@[simp] theorem name_put (s : Seating γ ρ κ ν) (c : γ) (p : Place ρ κ) :
    (s.put c p).name = s.name := rfl

@[simp] theorem place_rename (s : Seating γ ρ κ ν) (c : γ) (u : ν) :
    (s.rename c u).place = s.place := rfl

@[simp] theorem name_rename (s : Seating γ ρ κ ν) (c d : γ) (u : ν) :
    (s.rename c u).name d = if d = c then u else s.name d := by
  simp [rename,Function.update_apply]

theorem put_put (s : Seating γ ρ κ ν) (c : γ) (p q : Place ρ κ) :
    (s.put c p).put c q = s.put c q := by
  simp [put]

theorem put_comm {c d : γ} (hcd : c ≠ d) (s : Seating γ ρ κ ν) (p q : Place ρ κ) :
    (s.put c p).put d q = (s.put d q).put c p := by
  simp only [put,Function.update_comm hcd]

/-- What a move does. Each one has its rule where it succeeds and its rule where nothing comes of
it. -/
inductive Step (rules : Rules ρ) (s : Seating γ ρ κ ν) :
    Move γ ρ κ ν → Seating γ ρ κ ν → Prop
  | stay : Step rules s .stay s
  | arrive {c : γ} {u : ν} (hc : s.place c = .offline) (hfree : ¬ s.Named u) :
      Step rules s (.arrive c u) ((s.put c .online).rename c u)
  | nameTaken {c : γ} {u : ν} (htaken : s.Named u) : Step rules s (.arrive c u) s
  | enter {c : γ} {r : ρ} {n : ℕ} (hc : s.place c = .online) (hroom : rules.capacity r = some n)
      (hfree : (s.inRoom r).encard < n) : Step rules s (.enter c r) (s.put c (.room r))
  | full {c : γ} {r : ρ} (hc : s.place c = .online)
      (hfull : ∀ n, rules.capacity r = some n → n ≤ (s.inRoom r).encard) :
      Step rules s (.enter c r) s
  | leave {c : γ} {r : ρ} (hc : s.place c = .room r) : Step rules s (.leave c) (s.put c .online)
  | found {c : γ} {r : ρ} {k : κ} (hc : s.place c = .room r) (hfree : s.atTable r k = ∅) :
      Step rules s (.found c) (s.put c (.table r k (.player .owner .waiting)))
  | join {c : γ} {r : ρ} {k : κ} {side : Side} (hc : s.place c = .room r)
      (hother : s.Taken r k side.other) (hfree : ¬ s.Taken r k side) :
      Step rules s (.join c k) (s.put c (.table r k (.player side .waiting)))
  | noSeat {c : γ} {r : ρ} {k : κ} (hc : s.place c = .room r)
      (hnone : ∀ side, s.Taken r k side.other → s.Taken r k side) : Step rules s (.join c k) s
  | watch {c : γ} {r : ρ} {k : κ} (hc : s.place c = .room r) (htable : (s.atTable r k).Nonempty)
      (hfree : (s.watching r k).encard < rules.watchers) :
      Step rules s (.watch c k) (s.put c (.table r k .watcher))
  | noView {c : γ} {r : ρ} {k : κ} (hc : s.place c = .room r)
      (hfull : (s.atTable r k).Nonempty → rules.watchers ≤ (s.watching r k).encard) :
      Step rules s (.watch c k) s
  | rise {c : γ} {r : ρ} {k : κ} {role : Role} (hc : s.place c = .table r k role)
      (hplay : ¬ s.Playing c) : Step rules s (.rise c) (s.put c (.room r))
  | ready {c : γ} {r : ρ} {k : κ} {side : Side}
      (hc : s.place c = .table r k (.player side .waiting))
      (hwait : ∀ d, s.place d ≠ .table r k (.player side.other .ready)) :
      Step rules s (.ready c) (s.put c (.table r k (.player side .ready)))
  | begins {c d : γ} {r : ρ} {k : κ} {side : Side}
      (hc : s.place c = .table r k (.player side .waiting))
      (hd : s.place d = .table r k (.player side.other .ready)) :
      Step rules s (.ready c)
        ((s.put c (.table r k (.player side .playing))).put d
          (.table r k (.player side.other .playing)))
  | vanish {c : γ} : Step rules s (.vanish c) (s.put c .offline)

/-! ### One step -/

theorem eq_of_place_put {p : Place ρ κ} (hd : (s.put c p).place d ≠ s.place d) : d = c := by
  by_contra hne
  rw [place_put,if_neg hne] at hd
  exact hd rfl

/-- Guests go their ways until they vanish, each by a move of its own but for the start of a game,
to which the move of the other player leads. -/
theorem Step.way {m : Move γ ρ κ ν} (h : Step rules s m t) (hd : t.place d ≠ s.place d) :
    (m = .vanish d ∧ t.place d = .offline) ∨
    (Way (s.place d) (t.place d) ∧ (m.guest? = some d ∨ ∃ c r k side, m = .ready c ∧
      s.place c = .table r k (.player side .waiting) ∧
      s.place d = .table r k (.player side.other .ready) ∧
      t.place d = .table r k (.player side.other .playing))) := by
  have hput : ∀ {c : γ} {p : Place ρ κ}, Way (s.place c) p → m.guest? = some c →
      (s.put c p).place d ≠ s.place d →
      Way (s.place d) ((s.put c p).place d) ∧ m.guest? = some d := by
    intro c p hway hm hd
    obtain rfl := eq_of_place_put hd
    rw [place_put,if_pos rfl]
    exact ⟨hway,hm⟩
  cases h with
  | stay => exact absurd rfl hd
  | nameTaken => exact absurd rfl hd
  | full => exact absurd rfl hd
  | noSeat => exact absurd rfl hd
  | noView => exact absurd rfl hd
  | arrive hc hfree => exact .inr ((hput (hc ▸ .arrive) rfl hd).imp_right .inl)
  | @enter c r n hc hroom hfree => exact .inr ((hput (hc ▸ .enter r) rfl hd).imp_right .inl)
  | @leave c r hc => exact .inr ((hput (hc ▸ .leave r) rfl hd).imp_right .inl)
  | @found c r k hc hfree => exact .inr ((hput (hc ▸ .sit r k .owner) rfl hd).imp_right .inl)
  | @join c r k side hc hother hfree =>
    exact .inr ((hput (hc ▸ .sit r k side) rfl hd).imp_right .inl)
  | @watch c r k hc htable hfree => exact .inr ((hput (hc ▸ .watch r k) rfl hd).imp_right .inl)
  | @rise c r k role hc hplay =>
    have hrole : ∀ side, role ≠ .player side .playing := by
      rintro side rfl
      exact hplay ⟨r,k,side,hc⟩
    exact .inr ((hput (hc ▸ .rise hrole) rfl hd).imp_right .inl)
  | @ready c r k side hc hwait => exact .inr ((hput (hc ▸ .ready r k side) rfl hd).imp_right .inl)
  | @vanish c =>
    obtain rfl := eq_of_place_put hd
    exact .inl ⟨rfl,by rw [place_put,if_pos rfl]⟩
  | @begins c e r k side hc he =>
    by_cases hde : d = e
    · subst hde
      rw [place_put,if_pos rfl,he]
      exact .inr ⟨.begins (by decide),.inr ⟨c,r,k,side,rfl,hc,rfl,rfl⟩⟩
    · rw [place_put,if_neg hde] at hd ⊢
      exact .inr ((hput (hc ▸ .begins (by decide)) rfl hd).imp_right .inl)

/-- A player plays until it vanishes. -/
theorem Step.playing {m : Move γ ρ κ ν} (h : Step rules s m t) (hc : s.Playing c)
    (hm : m ≠ .vanish c) : t.place c = s.place c := by
  by_contra hne
  obtain ⟨hvanish,-⟩ | ⟨hway,-⟩ := h.way hne
  · exact hm hvanish
  · exact hc.no_way hway

/-! ### What holds of every house -/

theorem encard_put {P : Place ρ κ → Prop} {p : Place ρ κ} {n : ℕ}
    (hle : {d | P (s.place d)}.encard ≤ n)
    (hp : P p → P (s.place c) ∨ {d | P (s.place d)}.encard < n) :
    {d | P ((s.put c p).place d)}.encard ≤ n := by
  by_cases hin : P p → P (s.place c)
  · refine (Set.encard_le_encard fun d hd => ?_).trans hle
    rw [Set.mem_ofPred_eq,place_put] at hd
    split_ifs at hd with hdc
    · rw [hdc]
      exact hin hd
    · exact hd
  · rw [Classical.not_imp] at hin
    have hlt := (hp hin.1).resolve_left hin.2
    have hsub : {d | P ((s.put c p).place d)} ⊆ insert c {d | P (s.place d)} := by
      intro d hd
      rw [Set.mem_ofPred_eq,place_put] at hd
      split_ifs at hd with hdc
      · exact .inl hdc
      · exact .inr hd
    calc {d | P ((s.put c p).place d)}.encard
        ≤ (insert c {d | P (s.place d)}).encard := Set.encard_le_encard hsub
      _ ≤ {d | P (s.place d)}.encard + 1 := Set.encard_insert_le _ _
      _ ≤ n := Order.add_one_le_of_lt hlt

theorem rename_name (s : Seating γ ρ κ ν) (c : γ) : s.rename c (s.name c) = s := by
  ext d
  · rfl
  · by_cases hd : d = c
    · rw [name_rename,if_pos hd,hd]
    · rw [name_rename,if_neg hd]

/-- One guest moves, under a name that nobody else has, to a place that is free for it. -/
theorem Orderly.place {p : Place ρ κ} {u : ν} (h : s.Orderly rules)
    (hroom : ∀ r, p.room? = some r → ∃ n, rules.capacity r = some n ∧
      ((s.place c).room? = some r ∨ (s.inRoom r).encard < n))
    (hwatch : ∀ r k, p = .table r k .watcher → (s.watching r k).encard < rules.watchers)
    (hside : ∀ r k side phase, p = .table r k (.player side phase) → ∀ d phase', d ≠ c →
      s.place d ≠ .table r k (.player side phase'))
    (hready : ∀ r k side, p = .table r k (.player side .ready) → ∀ d, d ≠ c →
      s.place d ≠ .table r k (.player side.other .ready))
    (hname : p ≠ .offline → ∀ d, d ≠ c → s.place d ≠ .offline → s.name d ≠ u) :
    ((s.put c p).rename c u).Orderly rules := by
  refine ⟨fun d r hd => ?_,fun r n hn => ?_,fun r k => ?_,?_,?_,?_⟩
  · simp only [place_rename,place_put] at hd
    split_ifs at hd
    · obtain ⟨n,hn,-⟩ := hroom r hd
      exact ⟨n,hn⟩
    · exact h.rooms d r hd
  · refine encard_put (P := fun p => p.room? = some r) (h.capacity r n hn) fun hp => ?_
    obtain ⟨n',hn',hfree⟩ := hroom r hp
    obtain rfl := Option.some.inj (hn.symm.trans hn')
    exact hfree
  · exact encard_put (P := fun p => p = .table r k .watcher) (h.watchers r k)
      fun hp => .inr (hwatch r k hp)
  · intro d e r k side phase phase' hd he
    simp only [place_rename,place_put] at hd he
    split_ifs at hd he with hdc hec hec
    · rw [hdc,hec]
    · exact absurd he (hside r k side phase hd e phase' hec)
    · exact absurd hd (hside r k side phase' he d phase hdc)
    · exact h.sides d e r k side phase phase' hd he
  · intro d e r k side hd he
    simp only [place_rename,place_put] at hd he
    split_ifs at hd he with hdc hec hec
    · rw [hd] at he
      cases side <;> cases he
    · exact hready r k side hd e hec he
    · exact hready r k side.other he d hdc (by rwa [Side.other_other])
    · exact h.ready d e r k side hd he
  · intro d e hd he hde
    simp only [place_rename,place_put,name_rename] at hd he hde
    split_ifs at hd he hde with hdc hec hec
    · rw [hdc,hec]
    · exact absurd hde.symm (hname hd e hec he)
    · exact absurd hde (hname he d hdc hd)
    · exact h.names d e hd he hde

/-- A guest who is there keeps its name. -/
theorem Orderly.put {p : Place ρ κ} (h : s.Orderly rules) (hc : s.place c ≠ .offline ∨ p = .offline)
    (hroom : ∀ r, p.room? = some r → ∃ n, rules.capacity r = some n ∧
      ((s.place c).room? = some r ∨ (s.inRoom r).encard < n))
    (hwatch : ∀ r k, p = .table r k .watcher → (s.watching r k).encard < rules.watchers)
    (hside : ∀ r k side phase, p = .table r k (.player side phase) → ∀ d phase', d ≠ c →
      s.place d ≠ .table r k (.player side phase'))
    (hready : ∀ r k side, p = .table r k (.player side .ready) → ∀ d, d ≠ c →
      s.place d ≠ .table r k (.player side.other .ready)) : (s.put c p).Orderly rules := by
  have hname : p ≠ .offline → ∀ d, d ≠ c → s.place d ≠ .offline → s.name d ≠ s.name c :=
    fun hp d hd hplace hsame => hd (h.names d c hplace (hc.resolve_right hp) hsame)
  have hput := h.place hroom hwatch hside hready hname
  rwa [← name_put s c p,rename_name] at hput

/-- A guest at a table changes its role there, or takes one at a table of its room. -/
theorem Orderly.sit {role : Role} (h : s.Orderly rules) (hc : (s.place c).room? = some r)
    (hwatch : role = .watcher → (s.watching r k).encard < rules.watchers)
    (hside : ∀ side phase, role = .player side phase → ∀ d phase', d ≠ c →
      s.place d ≠ .table r k (.player side phase'))
    (hready : ∀ side, role = .player side .ready → ∀ d, d ≠ c →
      s.place d ≠ .table r k (.player side.other .ready)) :
    (s.put c (.table r k role)).Orderly rules := by
  refine h.put (.inl fun hoff => ?_) (fun r' hr' => ?_) ?_ ?_ ?_
  · rw [hoff] at hc
    cases hc
  · obtain ⟨n,hn⟩ := h.rooms c r hc
    cases hr'
    exact ⟨n,hn,.inl hc⟩
  · intro r' k' hp
    cases hp
    exact hwatch rfl
  · intro r' k' side phase hp
    cases hp
    exact hside side phase rfl
  · intro r' k' side hp
    cases hp
    exact hready side rfl

theorem Step.orderly {m : Move γ ρ κ ν} (h : Step rules s m t) (ho : s.Orderly rules) :
    t.Orderly rules := by
  cases h with
  | stay => exact ho
  | nameTaken => exact ho
  | full => exact ho
  | noSeat => exact ho
  | noView => exact ho
  | arrive hc hfree =>
    refine ho.place nofun nofun nofun nofun fun _ d _ hd hname => ?_
    exact hfree ⟨d,hd,hname⟩
  | @enter c r n hc hroom hfree =>
    refine ho.put (.inl (by rw [hc]; nofun)) (fun r' hr' => ?_) nofun nofun nofun
    cases hr'
    exact ⟨n,hroom,.inr hfree⟩
  | leave hc => exact ho.put (.inl (by rw [hc]; nofun)) nofun nofun nofun nofun
  | @found c r k hc hfree =>
    refine ho.sit (by rw [hc]; rfl) nofun (fun side phase hrole d phase' hd hplace => ?_) nofun
    exact hfree.subset ⟨_,hplace⟩
  | @join c r k side hc hother hfree =>
    refine ho.sit (by rw [hc]; rfl) nofun (fun side phase hrole d phase' hd hplace => ?_) nofun
    cases hrole
    exact hfree ⟨d,phase',hplace⟩
  | @watch c r k hc htable hfree => exact ho.sit (by rw [hc]; rfl) (fun _ => hfree) nofun nofun
  | @rise c r k role hc hplay =>
    refine ho.put (.inl (by rw [hc]; nofun)) (fun r' hr' => ?_) nofun nofun nofun
    obtain ⟨n,hn⟩ := ho.rooms c r (by rw [hc]; rfl)
    cases hr'
    exact ⟨n,hn,.inl (by rw [hc]; rfl)⟩
  | @ready c r k side hc hwait =>
    refine ho.sit (by rw [hc]; rfl) nofun (fun side phase hrole d phase' hd hplace => ?_) ?_
    · cases hrole
      exact hd (ho.sides d c r k _ phase' .waiting hplace hc)
    · intro side hrole d _
      cases hrole
      exact hwait d
  | @begins c e r k side hc he =>
    have hfirst : (s.put c (.table r k (.player side .playing))).Orderly rules := by
      refine ho.sit (by rw [hc]; rfl) nofun (fun side phase hrole d phase' hd hplace => ?_) nofun
      cases hrole
      exact hd (ho.sides d c r k _ phase' .waiting hplace hc)
    have hec : e ≠ c := by
      rintro rfl
      simp [hc] at he
    have he' : (s.put c (.table r k (.player side .playing))).place e =
        .table r k (.player side.other .ready) := by rw [place_put,if_neg hec,he]
    refine hfirst.sit (by rw [he']; rfl) nofun (fun side phase hrole d phase' hd hplace => ?_) ?_
    · cases hrole
      exact hd (hfirst.sides d e r k _ phase' .ready hplace he')
    · simp
  | vanish => exact ho.put (.inr rfl) nofun nofun nofun nofun

end Seating
