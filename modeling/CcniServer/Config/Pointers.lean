import CcniServer.Xml

/-!
Node pointers. A pointer is the node it points to with the siblings after it, and the null pointer
has none. `child`, `next`, `name` and `type` dereference their pointer; the other methods of
`CXmlNode` test it first.
-/
namespace CcniServer

/-- `xmlElementType`, as far as the code compares it. -/
inductive XmlElementType
  | XML_ELEMENT_NODE
  | XML_TEXT_NODE
  | other
  deriving DecidableEq

def CXmlNode.type : CXmlNode → XmlElementType
  | element _ _ => .XML_ELEMENT_NODE
  | text _ => .XML_TEXT_NODE
  | other => .other

/-- The methods that crash on a null pointer. -/
inductive Deref
  | child
  | next
  | name
  | type
  deriving DecidableEq

/-- A computation that ends where a null pointer is dereferenced. -/
abbrev Derefs := Except Deref

theorem Derefs.bind_eq_ok {α β : Type} {x : Derefs α} {f : α → Derefs β} {b : β} :
    x >>= f = .ok b ↔ ∃ a, x = .ok a ∧ f a = .ok b := by
  constructor
  · intro h
    cases x with
    | error site => cases h
    | ok a => exact ⟨a,rfl,h⟩
  · rintro ⟨a,rfl,hf⟩
    exact hf

abbrev CXmlNodePtr := List CXmlNode

/-- A document: its root element, and the comments and instructions after it. -/
structure CXmlDoc where
  root : CXmlNode
  rest : List CXmlNode
  root_isElement : root.isElement = true

def CXmlDoc.getRoot (d : CXmlDoc) : CXmlNodePtr := d.root :: d.rest

namespace CXmlNodePtr

def child : CXmlNodePtr → Derefs CXmlNodePtr
  | [] => .error .child
  | n :: _ => .ok n.children

def next : CXmlNodePtr → Derefs CXmlNodePtr
  | [] => .error .next
  | _ :: ns => .ok ns

def name : CXmlNodePtr → Derefs String
  | [] => .error .name
  | n :: _ => .ok n.name

def type : CXmlNodePtr → Derefs XmlElementType
  | [] => .error .type
  | n :: _ => .ok n.type

def findChild (p : CXmlNodePtr) (tag : String) : CXmlNodePtr :=
  match p with
  | [] => []
  | n :: _ => n.children.dropWhile (fun c => !CXmlNode.isNamed tag c)

def getContent (p : CXmlNodePtr) : String := CXmlNode.getContent p.head?

def getIntContent (p : CXmlNodePtr) : ℤ := CXmlNode.getIntContent p.head?

theorem head?_findChild (p : CXmlNodePtr) (tag : String) :
    (p.findChild tag).head? = CXmlNode.findChild p.head? tag := by
  cases p with
  | nil => rfl
  | cons n ns =>
    have hfind : ∀ cs : List CXmlNode, (cs.dropWhile (fun c => !CXmlNode.isNamed tag c)).head? =
        cs.find? (CXmlNode.isNamed tag) := by
      intro cs
      induction cs with
      | nil => rfl
      | cons c cs ih => cases h : CXmlNode.isNamed tag c <;> simp [h,ih]
    exact hfind n.children

theorem findChild_ne_nil {p : CXmlNodePtr} {tag : String} :
    p.findChild tag ≠ [] ↔ (CXmlNode.findChild p.head? tag).isSome := by
  rw [← List.isSome_head?,head?_findChild]

/-! ### Loops over siblings -/

variable {σ : Type}

/-- `for (n = first; !n.isEmpty(); n = n.next())` -/
def each (body : σ → CXmlNodePtr → Derefs σ) : σ → CXmlNodePtr → Derefs σ
  | s, [] => .ok s
  | s, n :: ns => do
    let s ← body s (n :: ns)
    each body s ns

/-- The step of the loop is `next` of a pointer that is not null. -/
theorem each_cons (body : σ → CXmlNodePtr → Derefs σ) (s : σ) (n : CXmlNode)
    (ns : List CXmlNode) : each body s (n :: ns) =
      (do let s ← body s (n :: ns); let p ← next (n :: ns); each body s p) := rfl

/-- The body of the loops: a node that is no element is passed over, and so is one of another
name. -/
def ifNamed (tag : String) (f : σ → CXmlNode → σ) (s : σ) (p : CXmlNodePtr) : Derefs σ := do
  if (← p.type) ≠ .XML_ELEMENT_NODE then return s
  if (← p.name) = tag then return p.head?.elim s (f s) else return s

theorem ifNamed_cons (tag : String) (f : σ → CXmlNode → σ) (s : σ) (n : CXmlNode)
    (ns : List CXmlNode) : ifNamed tag f s (n :: ns) =
      .ok (if CXmlNode.isNamed tag n then f s n else s) := by
  cases n with
  | element m cs =>
    change (if m = tag then .ok (f s (.element m cs)) else .ok s : Derefs σ) = _
    have hnamed : CXmlNode.isNamed tag (.element m cs) = (m == tag) := rfl
    by_cases hname : m = tag
    · rw [if_pos hname,hnamed,if_pos (beq_iff_eq.mpr hname)]
    · rw [if_neg hname,hnamed,if_neg (fun h => hname (beq_iff_eq.mp h))]
  | text content => rfl
  | other => rfl

/-- The loops dereference no null pointer. -/
theorem each_ifNamed (tag : String) (f : σ → CXmlNode → σ) (s : σ) (p : CXmlNodePtr) :
    each (ifNamed tag f) s p = .ok ((p.filter (CXmlNode.isNamed tag)).foldl f s) := by
  induction p generalizing s with
  | nil => rfl
  | cons n ns ih =>
    rw [each_cons,ifNamed_cons]
    refine (ih _).trans (congrArg Except.ok ?_)
    by_cases hname : CXmlNode.isNamed tag n = true
    · rw [List.filter_cons_of_pos hname,List.foldl_cons,if_pos hname]
    · rw [List.filter_cons_of_neg hname,if_neg hname]

/-- A loop over the children needs a node. -/
theorem child_each (tag : String) (f : σ → CXmlNode → σ) (s : σ) (p : CXmlNodePtr) :
    (p.child >>= each (ifNamed tag f) s) = p.head?.elim (.error .child)
      (fun n => .ok ((n.children.filter (CXmlNode.isNamed tag)).foldl f s)) := by
  cases p with
  | nil => rfl
  | cons n ns => exact each_ifNamed tag f s n.children

theorem child_each_ok_iff (tag : String) (f : σ → CXmlNode → σ) (s : σ) (p : CXmlNodePtr) :
    (∃ t, (p.child >>= each (ifNamed tag f) s) = .ok t) ↔ p ≠ [] := by
  rw [child_each]
  cases p with
  | nil =>
    refine ⟨?_,fun h => absurd rfl h⟩
    rintro ⟨_,h⟩
    cases h
  | cons n ns => exact ⟨fun _ => List.cons_ne_nil n ns,fun _ => ⟨_,rfl⟩⟩

end CXmlNodePtr
end CcniServer
