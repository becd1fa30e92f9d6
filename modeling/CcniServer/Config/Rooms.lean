import CcniServer.Config.Pointers
import CcniServer.Hall.Engine

/-!
The rooms of the configuration: the ids that `CHallConfig::create` gives to the `Room` elements,
from their own numbers and from a running counter, and the rooms that `CDataMgr::create` makes.
-/
namespace CcniServer

abbrev xmlRoom := "Room"
abbrev xmlId := "Id"
abbrev xmlDescription := "Description"
abbrev xmlCapacity := "Capacity"

namespace CRoomConfig

/-- An id a room can have. -/
abbrev Id := { id : ℕ // 0 < id ∧ id < 2^31 }

/-- The counter step of `generateId`; an `int` that would overflow ends the model. -/
def generateId (ids : ℕ) : Option Id :=
  if h : ids + 1 < 2^31 then some ⟨ids + 1,Nat.succ_pos ids,h⟩ else none

/-- `%03d` -/
def pad (n : ℕ) : String := "".pushn '0' (3 - (toString n).length) ++ toString n

/-- The constructor, given the id of the counter. -/
def new (id : Id) : CRoomConfig := ⟨id,255,"Room" ++ pad id,id.2.1,id.2.2⟩

/-- The number in the `Id` child. -/
def idOf (nd : CXmlNode) : ℤ := CXmlNode.getIntContent (CXmlNode.findChild (some nd) xmlId)

theorem idOf_range (nd : CXmlNode) : -2^31 ≤ idOf nd ∧ idOf nd < 2^31 :=
  CXmlNode.getIntContent_range _

/-- Positive numbers replace the defaults, the description always does. -/
def create (cfg : CRoomConfig) (nd : CXmlNode) : CRoomConfig :=
  let capacity := CXmlNode.getIntContent (CXmlNode.findChild (some nd) xmlCapacity)
  { id := if idOf nd > 0 then (idOf nd).toNat else cfg.id
    capacity := if capacity > 0 then capacity.toNat else cfg.capacity
    description := CXmlNode.getContent (CXmlNode.findChild (some nd) xmlDescription)
    id_pos := by
      have hpos := cfg.id_pos
      split_ifs <;> omega
    id_lt := by
      have hlt := cfg.id_lt
      have hrange := idOf_range nd
      split_ifs <;> omega }

end CRoomConfig

namespace CHallConfig

/-- One `Room` element; the counter is shared by all configurations. -/
def addRoom (st : Option (ℕ × List CRoomConfig)) (n : CXmlNode) :
    Option (ℕ × List CRoomConfig) :=
  st.bind (fun st =>
    (CRoomConfig.generateId st.1).map (fun id =>
      let rcfg := (CRoomConfig.new id).create n
      (id.1,st.2 ++ [rcfg])))

/-- The counter and the rooms after the children of the node. -/
def create (ids : ℕ) (nd : CXmlNodePtr) : Derefs (Option (ℕ × List CRoomConfig)) := do
  let n ← nd.child
  CXmlNodePtr.each (CXmlNodePtr.ifNamed xmlRoom addRoom) (some (ids,[])) n

/-- The `Room` elements. -/
def roomNodes (nd : CXmlNode) : List CXmlNode := nd.children.filter (CXmlNode.isNamed xmlRoom)

/-- The id of an element, given the counter before it. -/
def idAt (ids : ℕ) (n : CXmlNode) : ℕ :=
  if CRoomConfig.idOf n > 0 then (CRoomConfig.idOf n).toNat else ids + 1

/-- The elements' ids in turn. -/
def roomIds (ids : ℕ) (ns : List CXmlNode) : List ℕ := ns.mapIdx (fun i n => idAt (ids + i) n)

theorem foldl_addRoom_none (ns : List CXmlNode) : ns.foldl addRoom none = none := by
  induction ns with
  | nil => rfl
  | cons n ns ih => exact ih

theorem roomIds_cons (ids : ℕ) (n : CXmlNode) (ns : List CXmlNode) :
    roomIds ids (n :: ns) = idAt ids n :: roomIds (ids + 1) ns := by
  rw [roomIds,List.mapIdx_cons,roomIds]
  refine congrArg₂ _ rfl (congrArg (List.mapIdx · ns) ?_)
  funext i n
  rw [Nat.add_assoc,Nat.add_comm 1]

/-- The elements get their ids, unless the counter overflows. -/
theorem foldl_addRoom {ids : ℕ} (hids : ids < 2^31) (acc : List CRoomConfig) (ns : List CXmlNode) :
    if ids + ns.length < 2^31 then
      ∃ cfgs, cfgs.map CRoomConfig.id = roomIds ids ns ∧
        ns.foldl addRoom (some (ids,acc)) = some (ids + ns.length,acc ++ cfgs)
    else ns.foldl addRoom (some (ids,acc)) = none := by
  induction ns generalizing ids acc with
  | nil =>
    rw [if_pos (by exact hids)]
    exact ⟨[],rfl,by rw [List.append_nil]; rfl⟩
  | cons n ns ih =>
    by_cases hnext : ids + 1 < 2^31
    · have hadd : addRoom (some (ids,acc)) n = some (ids + 1,acc ++
          [(CRoomConfig.new ⟨ids + 1,Nat.succ_pos ids,hnext⟩).create n]) := by
        rw [addRoom,Option.bind_some,CRoomConfig.generateId,dif_pos hnext]
        rfl
      have hlen : ids + (n :: ns).length = ids + 1 + ns.length := by
        rw [List.length_cons]
        omega
      have hrest := ih hnext (acc ++
        [(CRoomConfig.new ⟨ids + 1,Nat.succ_pos ids,hnext⟩).create n])
      rw [List.foldl_cons,hadd,hlen,roomIds_cons]
      split_ifs at hrest ⊢
      · obtain ⟨cfgs,hcfgs,hfold⟩ := hrest
        refine ⟨_ :: cfgs,?_,by rw [hfold,List.append_assoc]; rfl⟩
        rw [List.map_cons,hcfgs]
        rfl
      · exact hrest
    · have hadd : addRoom (some (ids,acc)) n = none := by
        rw [addRoom,Option.bind_some,CRoomConfig.generateId,dif_neg hnext]
        rfl
      rw [List.foldl_cons,hadd,foldl_addRoom_none,if_neg (by rw [List.length_cons]; omega)]

/-- The positive numbers of the elements are different. -/
def Distinct (ns : List CXmlNode) : Prop :=
  ns.Pairwise (fun n n' => CRoomConfig.idOf n > 0 → CRoomConfig.idOf n ≠ CRoomConfig.idOf n')

/-- No element has the number that the counter gives to an element without one. -/
def Apart (ns : List CXmlNode) : Prop :=
  ∀ (i j : ℕ) n n', ns[i]? = some n → ns[j]? = some n' → ¬ CRoomConfig.idOf n > 0 →
    CRoomConfig.idOf n' ≠ (i : ℤ) + 1

theorem getElem?_roomIds (ns : List CXmlNode) (i : ℕ) :
    (roomIds 0 ns)[i]? = ns[i]?.map (idAt i) := by
  rw [roomIds,List.getElem?_mapIdx]
  simp only [Nat.zero_add]

theorem idAt_pos {i : ℕ} {n : CXmlNode} (h : CRoomConfig.idOf n > 0) :
    (idAt i n : ℤ) = CRoomConfig.idOf n := by
  rw [idAt,if_pos h]
  omega

theorem idAt_of_not_pos {i : ℕ} {n : CXmlNode} (h : ¬ CRoomConfig.idOf n > 0) :
    idAt i n = i + 1 := if_neg h

/-- Two elements whose ids are compared: by their numbers, by the counter, or by one of each. -/
theorem idAt_ne {ns : List CXmlNode} (h : Distinct ns) (hapart : Apart ns) {i j : ℕ}
    {n n' : CXmlNode} (hi : ns[i]? = some n) (hj : ns[j]? = some n') (hij : i < j) :
    idAt i n ≠ idAt j n' := by
  obtain ⟨hilt,rfl⟩ := List.getElem?_eq_some_iff.mp hi
  obtain ⟨hjlt,rfl⟩ := List.getElem?_eq_some_iff.mp hj
  have hdistinct := List.pairwise_iff_getElem.mp h i j hilt hjlt hij
  by_cases hpos : CRoomConfig.idOf ns[i] > 0
  · have hfirst := idAt_pos (i := i) hpos
    by_cases hpos' : CRoomConfig.idOf ns[j] > 0
    · have hsecond := idAt_pos (i := j) hpos'
      have hne := hdistinct hpos
      omega
    · have hsecond := idAt_of_not_pos (i := j) hpos'
      have hne := hapart j i _ _ hj hi hpos'
      omega
  · have hfirst := idAt_of_not_pos (i := i) hpos
    by_cases hpos' : CRoomConfig.idOf ns[j] > 0
    · have hsecond := idAt_pos (i := j) hpos'
      have hne := hapart i j _ _ hi hj hpos
      omega
    · have hsecond := idAt_of_not_pos (i := j) hpos'
      omega

theorem nodup_roomIds {ns : List CXmlNode} (h : Distinct ns) : (roomIds 0 ns).Nodup ↔ Apart ns := by
  rw [List.nodup_iff_getElem?_ne_getElem?]
  have hlen : (roomIds 0 ns).length = ns.length := List.length_mapIdx
  constructor
  · intro hnd i j n n' hi hj hauto heq
    have hpos : CRoomConfig.idOf n' > 0 := by omega
    have hsame : (roomIds 0 ns)[i]? = (roomIds 0 ns)[j]? := by
      have hsecond := idAt_pos (i := j) hpos
      have hids : idAt i n = idAt j n' := by
        rw [idAt_of_not_pos hauto]
        omega
      rw [getElem?_roomIds,getElem?_roomIds,hi,hj,Option.map_some,Option.map_some,hids]
    have hilt : i < ns.length := (List.getElem?_eq_some_iff.mp hi).1
    have hjlt : j < ns.length := (List.getElem?_eq_some_iff.mp hj).1
    rcases lt_trichotomy i j with hij | rfl | hij
    · exact hnd i j hij (hlen ▸ hjlt) hsame
    · cases hi.symm.trans hj
      exact hauto hpos
    · exact hnd j i hij (hlen ▸ hilt) hsame.symm
  · intro hapart i j hij hj heq
    rw [hlen] at hj
    have hi : i < ns.length := hij.trans hj
    rw [getElem?_roomIds,getElem?_roomIds,List.getElem?_eq_getElem hi,List.getElem?_eq_getElem hj,
      Option.map_some,Option.map_some,Option.some_inj] at heq
    exact idAt_ne h hapart (List.getElem?_eq_getElem hi) (List.getElem?_eq_getElem hj) hij heq

/-- Every `Room` element has its room, and no other room has an id of the counter. -/
structure AllExist (ns : List CXmlNode) (cfgs : List CRoomConfig) : Prop where
  length : cfgs.length = ns.length
  size : (CEngine.createRooms cfgs).size = ns.length
  found : ∀ cfg ∈ cfgs, ∃ rm, (CEngine.createRooms cfgs).find? (cfg.id : ℤ) = some rm ∧ rm.cfg = cfg
  own : ∀ (i : ℕ) n (cfg : CRoomConfig), ns[i]? = some n → cfgs[i]? = some cfg →
    CRoomConfig.idOf n > 0 → (cfg.id : ℤ) = CRoomConfig.idOf n
  auto : ∀ (i j : ℕ) n (cfg cfg' : CRoomConfig), i ≠ j → ns[i]? = some n → ¬ CRoomConfig.idOf n > 0 →
    cfgs[i]? = some cfg → cfgs[j]? = some cfg' → cfg.id ≠ cfg'.id

theorem allExist_iff {ns : List CXmlNode} {cfgs : List CRoomConfig}
    (hids : cfgs.map CRoomConfig.id = roomIds 0 ns) :
    AllExist ns cfgs ↔ (roomIds 0 ns).Nodup := by
  have hlen : cfgs.length = ns.length := by
    have h := congrArg List.length hids
    rwa [List.length_map,roomIds,List.length_mapIdx] at h
  have hkeys : (cfgs.map (fun cfg => (cfg.id : ℤ))).Nodup ↔ (roomIds 0 ns).Nodup := by
    rw [← hids,← List.nodup_map_iff (f := fun i : ℕ => (i : ℤ)) Nat.cast_injective,List.map_map]
    rfl
  have hrooms : CEngine.createRooms cfgs =
      OrdMap.insertAll (fun cfg : CRoomConfig => (cfg.id : ℤ)) CRoom.new OrdMap.empty cfgs := rfl
  have hid : ∀ (i : ℕ) cfg, cfgs[i]? = some cfg → (roomIds 0 ns)[i]? = some cfg.id := by
    intro i cfg hi
    rw [← hids,List.getElem?_map,hi]
    rfl
  constructor
  · intro hall
    rw [← hkeys]
    have hsize := hall.size
    rw [hrooms,← hlen] at hsize
    refine ((OrdMap.size_insertAll_iff _ _ _ _).mp (hsize.trans ?_)).1
    exact (Nat.zero_add _).symm
  · intro hnd
    have hnd' := hkeys.mpr hnd
    refine ⟨hlen,?_,?_,?_,?_⟩
    · rw [hrooms,← hlen,(OrdMap.size_insertAll_iff _ _ _ _).mpr ⟨hnd',fun _ _ => rfl⟩]
      exact Nat.zero_add _
    · intro cfg hcfg
      exact ⟨CRoom.new cfg,OrdMap.find?_insertAll _ _ _ hnd' hcfg,rfl⟩
    · intro i n cfg hn hcfg hpos
      have h := hid i cfg hcfg
      rw [getElem?_roomIds,hn,Option.map_some,Option.some_inj] at h
      rw [← h,idAt_pos hpos]
    · intro i j n cfg cfg' hij hn hauto hcfg hcfg' heq
      have hi := hid i cfg hcfg
      have hj := hid j cfg' hcfg'
      have hilt := (List.getElem?_eq_some_iff.mp hi).1
      rw [heq,← hj] at hi
      exact hij ((List.getElem?_inj hilt hnd).mp hi)

/-- All configured rooms exist exactly when the counter does not overflow and none of its numbers
is also in the file. -/
theorem rooms_exist_iff (nd : CXmlNode) (ns : List CXmlNode) (hdistinct : Distinct (roomNodes nd)) :
    (∃ ids cfgs, create 0 (nd :: ns) = .ok (some (ids,cfgs)) ∧ AllExist (roomNodes nd) cfgs) ↔
      (roomNodes nd).length < 2^31 ∧ Apart (roomNodes nd) := by
  have hcreate : create 0 (nd :: ns) = .ok ((roomNodes nd).foldl addRoom (some (0,[]))) :=
    CXmlNodePtr.each_ifNamed xmlRoom addRoom _ nd.children
  have hfold := foldl_addRoom (by norm_num : 0 < 2^31) [] (roomNodes nd)
  rw [hcreate]
  simp only [Nat.zero_add,List.nil_append] at hfold
  split_ifs at hfold with hlen
  · obtain ⟨cfgs,hids,hfold⟩ := hfold
    rw [hfold,and_iff_right hlen,← nodup_roomIds hdistinct,← allExist_iff hids]
    constructor
    · rintro ⟨ids,cfgs',heq,hall⟩
      cases heq
      exact hall
    · exact fun hall => ⟨_,cfgs,rfl,hall⟩
  · rw [hfold]
    constructor
    · rintro ⟨ids,cfgs,heq,-⟩
      cases heq
    · exact fun h => absurd h.1 hlen

/-- A hall of a room without a number and one with a number. -/
def hallOf (id : String) : CXmlNode :=
  .element "HallConfig" [.element xmlRoom [],.element xmlRoom [.element xmlId [.text id]]]

theorem rooms_exist_two : ∃ ids cfgs, create 0 [hallOf "7"] = .ok (some (ids,cfgs)) ∧
    AllExist (roomNodes (hallOf "7")) cfgs := by
  have hdistinct : Distinct (roomNodes (hallOf "7")) := by
    unfold Distinct
    decide
  refine (rooms_exist_iff (hallOf "7") [] hdistinct).mpr ⟨by decide,?_⟩
  exact (nodup_roomIds hdistinct).mp (by decide)

/-- The number in the file is the one that the counter gave to the room before. -/
theorem room_overwritten : Distinct (roomNodes (hallOf "1")) ∧
    ¬ ∃ ids cfgs, create 0 [hallOf "1"] = .ok (some (ids,cfgs)) ∧
      AllExist (roomNodes (hallOf "1")) cfgs := by
  refine ⟨by unfold Distinct; decide,?_⟩
  rintro ⟨ids,cfgs,hcreate,hall⟩
  have hids : [1,1] = cfgs.map CRoomConfig.id := by
    have hmade := Option.some.inj (congrArg Except.toOption hcreate)
    have hmap : some [1,1] = some (cfgs.map CRoomConfig.id) := congrArg
      (Option.map (fun made : ℕ × List CRoomConfig => made.2.map CRoomConfig.id)) hmade
    exact Option.some.inj hmap
  have hnd := (allExist_iff
    (hids.symm : cfgs.map CRoomConfig.id = roomIds 0 (roomNodes (hallOf "1")))).mp hall
  exact absurd hnd (by decide)

end CHallConfig
end CcniServer
