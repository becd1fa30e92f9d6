import CcniServer.Wire.RoundTrip
import Mathlib.Data.List.Forall2

/-!
Documents on the wire. `dump` and `createFromXmlCdata` stand for the two functions of libxml2: the
text of a document given by its root, formatted and in UTF-8, and the root of the document in a
text.
-/
namespace CcniServer

/-- A document of the messages in it. -/
def document (msgs : List CXmlNode) : CXmlNode := .element xmlTagCCNIMessages msgs

/-- A tree and what is read in its text: the same elements in the same order, perhaps with blanks
between them, and numbers as they were written. -/
inductive Reread : CXmlNode → CXmlNode → Prop
  | element {n : String} {cs cs' : List CXmlNode}
      (helements : List.Forall₂ Reread (cs.filter CXmlNode.isElement)
        (cs'.filter CXmlNode.isElement))
      (hnumber : ∀ i : ℤ, cs = [.text (toString i)] → cs' = [.text (toString i)]) :
      Reread (.element n cs) (.element n cs')

/-- In two lists whose elements agree in their names the first ones of a name agree. -/
theorem find?_rel {R : CXmlNode → CXmlNode → Prop} {n : String}
    (hname : ∀ a b, R a b → CXmlNode.isNamed n b = CXmlNode.isNamed n a) {l l' : List CXmlNode}
    (h : List.Forall₂ R l l') :
    Option.Rel R (l.find? (CXmlNode.isNamed n)) (l'.find? (CXmlNode.isNamed n)) := by
  induction h with
  | nil => exact .none
  | @cons a b as bs hab _ ih =>
    have hsame := hname a b hab
    by_cases hn : CXmlNode.isNamed n a = true
    · rw [List.find?_cons_of_pos hn,List.find?_cons_of_pos (hsame.trans hn)]
      exact .some hab
    · rw [List.find?_cons_of_neg hn,List.find?_cons_of_neg (hsame ▸ hn)]
      exact ih

theorem find?_elements (n : String) (cs : List CXmlNode) :
    (cs.filter CXmlNode.isElement).find? (CXmlNode.isNamed n) =
      cs.find? (CXmlNode.isNamed n) := by
  rw [List.find?_filter]
  congr 1
  funext a
  cases a <;> simp [CXmlNode.isNamed,CXmlNode.isElement,beq_eq_decide]

theorem findSome_rel {R : CXmlNode → CXmlNode → Prop} {n : String}
    (hname : ∀ a b, R a b → CXmlNode.isNamed n b = CXmlNode.isNamed n a) {cs cs' : List CXmlNode}
    (h : List.Forall₂ R (cs.filter CXmlNode.isElement) (cs'.filter CXmlNode.isElement))
    {e : CXmlNode} (hfound : cs.find? (CXmlNode.isNamed n) = some e) :
    ∃ e', cs'.find? (CXmlNode.isNamed n) = some e' ∧ R e e' := by
  have hrel := find?_rel hname h
  rw [find?_elements,find?_elements,hfound] at hrel
  generalize cs'.find? (CXmlNode.isNamed n) = found at hrel
  cases hrel with
  | some hread => exact ⟨_,rfl,hread⟩

namespace Reread

theorem name {d d' : CXmlNode} (h : Reread d d') : d'.name = d.name := by
  cases h
  rfl

theorem isElement {d d' : CXmlNode} (h : Reread d d') : d'.isElement = true := by
  cases h
  rfl

theorem isNamed (n : String) (d d' : CXmlNode) (h : Reread d d') :
    CXmlNode.isNamed n d' = CXmlNode.isNamed n d := by
  cases h
  rfl

/-- The children of one name are found where they were. -/
theorem findChild {d d' : CXmlNode} (h : Reread d d') (n : String) :
    Option.Rel Reread (CXmlNode.findChild (some d) n) (CXmlNode.findChild (some d') n) := by
  cases h with
  | @element m cs cs' helements hnumber =>
    have hfound := find?_rel (Reread.isNamed n) helements
    rw [find?_elements,find?_elements] at hfound
    exact hfound

theorem findSome {d d' e : CXmlNode} {n : String} (h : Reread d d')
    (hfound : CXmlNode.findChild (some d) n = some e) :
    ∃ e', CXmlNode.findChild (some d') n = some e' ∧ Reread e e' := by
  cases h with
  | element helements hnumber => exact findSome_rel (Reread.isNamed n) helements hfound

/-- A number is found again, and is the one that was written. -/
theorem findInt {d d' : CXmlNode} {n : String} {i : ℤ} (h : Reread d d')
    (hfound : CXmlNode.findChild (some d) n = some (.element n [.text (toString i)])) :
    CXmlNode.getIntContent (CXmlNode.findChild (some d') n) =
      (Scan.scanInt (toString i)).getD 0 := by
  obtain ⟨e',he',hread⟩ := h.findSome hfound
  rw [he']
  cases hread with
  | element helements hnumber =>
    rw [hnumber i rfl]
    simp [CXmlNode.getIntContent,CXmlNode.getContent,CXmlNode.content,CXmlNode.contents]

theorem named {α : Type} {f : α → CXmlNode} {m : String} (hf : ∀ a, ∃ cs, f a = .element m cs)
    {l : List α} {es : List CXmlNode} (h : List.Forall₂ (fun a e => Reread (f a) e) l es) :
    ∀ e ∈ es, CXmlNode.isNamed m e = true := by
  induction h with
  | nil => nofun
  | @cons a e l es hread _ ih =>
    intro e' he'
    rcases List.mem_cons.mp he' with rfl | he'
    · obtain ⟨cs,hcs⟩ := hf a
      have hname : e'.name = m := by
        rw [hread.name,hcs]
        rfl
      simp [CXmlNode.isNamed,hread.isElement,hname]
    · exact ih e' he'

/-- The elements of a list come back in their order. -/
theorem listed {α : Type} {f : α → CXmlNode} {n m : String} {l : List α} {d' : CXmlNode}
    (hf : ∀ a, ∃ cs, f a = .element m cs) (h : Reread (.element n (l.map f)) d') :
    List.Forall₂ (fun a e => Reread (f a) e) l (d'.children.filter (CXmlNode.isNamed m)) := by
  have hall : (l.map f).filter CXmlNode.isElement = l.map f := by
    apply List.filter_eq_self.mpr
    intro nd hnd
    obtain ⟨a,-,rfl⟩ := List.mem_map.mp hnd
    obtain ⟨cs,hcs⟩ := hf a
    rw [hcs]
    rfl
  cases h with
  | @element _ _ cs' helements hnumber =>
    rw [hall,List.forall₂_map_left_iff] at helements
    have hnamed : cs'.filter (CXmlNode.isNamed m) = cs'.filter CXmlNode.isElement := by
      have htwice : cs'.filter (CXmlNode.isNamed m) =
          (cs'.filter CXmlNode.isElement).filter (CXmlNode.isNamed m) := by
        rw [List.filter_filter]
        congr 1
        funext nd
        cases nd <;> simp [CXmlNode.isNamed,CXmlNode.isElement]
      rw [htwice,List.filter_eq_self.mpr (named hf helements)]
    exact hnamed ▸ helements

end Reread

/-- An answer that begins with its return code. -/
def coded (tag : String) (code : ℤ) (rest : List CXmlNode) : CXmlNode :=
  .element tag (.element xmlTagReturnCode [.text (toString code)] :: rest)

/-- The return code is found again, and is the number that was written. -/
theorem Reread.returnCode {tag : String} {code : ℤ} {rest : List CXmlNode} {d' : CXmlNode}
    (h : Reread (coded tag code rest) d') :
    CXmlNode.getIntContent (CXmlNode.findChild (some d') xmlTagReturnCode) =
      (Scan.scanInt (toString code)).getD 0 := by
  apply h.findInt
  simp [CXmlNode.findChild,coded,CXmlNode.children,CXmlNode.isNamed,CXmlNode.isElement,
    CXmlNode.name]

/-! ### Texts of parameters -/

/-- A tree and what is read in its text, where every text without elements beside it comes back. -/
inductive Returned : CXmlNode → CXmlNode → Prop
  | element {n : String} {cs cs' : List CXmlNode}
      (helements : List.Forall₂ Returned (cs.filter CXmlNode.isElement)
        (cs'.filter CXmlNode.isElement))
      (htext : ∀ v, cs = [.text v] →
        CXmlNode.contents cs' = v ∧ (v ≠ "" → cs' = [.text v])) :
      Returned (.element n cs) (.element n cs')

theorem toString_ne_empty (i : ℤ) : toString i ≠ "" := by
  intro h
  have hnone : Scan.signed (toString i).toList = none := by
    rw [h]
    rfl
  rw [Scan.signed_toString] at hnone
  cases hnone

theorem Returned.findSome {d d' e : CXmlNode} {n : String} (h : Returned d d')
    (hfound : CXmlNode.findChild (some d) n = some e) :
    ∃ e', CXmlNode.findChild (some d') n = some e' ∧ Returned e e' := by
  have hname : ∀ a b, Returned a b → CXmlNode.isNamed n b = CXmlNode.isNamed n a := by
    intro a b hab
    cases hab
    rfl
  cases h with
  | element helements htext => exact findSome_rel hname helements hfound

/-- Induction over a tree by the children of its elements. -/
@[elab_as_elim]
theorem CXmlNode.childInduction {motive : CXmlNode → Prop}
    (element : ∀ n cs, (∀ c ∈ cs, motive c) → motive (.element n cs))
    (text : ∀ s, motive (.text s)) (other : motive .other) : ∀ d, motive d
  | .element n cs => element n cs fun c hc =>
    have hlt : sizeOf c < sizeOf (CXmlNode.element n cs) :=
      (List.sizeOf_lt_of_mem hc).trans_le (by simp)
    childInduction element text other c
  | .text s => text s
  | .other => other
termination_by d => sizeOf d
decreasing_by exact hlt

theorem Returned.reread {d d' : CXmlNode} (h : Returned d d') : Reread d d' := by
  induction d using CXmlNode.childInduction generalizing d' with
  | element n cs ih =>
    cases h with
    | @element _ _ cs' helements htext =>
      refine .element ?_ fun i hi => (htext _ hi).2 (toString_ne_empty i)
      rw [List.forall₂_iff_get] at helements ⊢
      refine ⟨helements.1,fun i h₁ h₂ => ?_⟩
      exact ih _ (List.mem_of_mem_filter (List.get_mem _ _)) (helements.2 i h₁ h₂)
  | text s => cases h
  | other => cases h

theorem contents_text (v : String) : CXmlNode.contents [.text v] = v := by
  simp [CXmlNode.contents,CXmlNode.content]

theorem Returned.refl {d : CXmlNode} (h : d.isElement = true) : Returned d d := by
  induction d using CXmlNode.childInduction with
  | element n cs ih =>
    refine .element (List.forall₂_same.mpr fun c hc => ?_) fun v hcs =>
      ⟨hcs ▸ contents_text v,fun _ => hcs⟩
    exact ih c (List.mem_of_mem_filter hc) (List.mem_filter.mp hc).2
  | text s => cases h
  | other => cases h

/-- The line break of a formatted text and its indentation. -/
def newline (k : ℕ) : String := String.ofList ('\n' :: List.replicate (2*k) ' ')

mutual
/-- What is read in the formatted text of a tree: blanks stand around elements that have no text
beside them. -/
def laid : ℕ → CXmlNode → CXmlNode
  | k, .element n cs =>
    .element n (if cs.all CXmlNode.isElement && !cs.isEmpty then
      laids (k + 1) cs ++ [.text (newline k)] else cs)
  | _, .text s => .text s
  | _, .other => .other
def laids : ℕ → List CXmlNode → List CXmlNode
  | _, [] => []
  | k, c :: cs => .text (newline k) :: laid k c :: laids k cs
end

mutual
theorem returned_laid (k : ℕ) : ∀ d : CXmlNode, d.isElement = true → Returned d (laid k d)
  | .element n cs, _ => by
    rw [laid]
    by_cases hall : (cs.all CXmlNode.isElement && !cs.isEmpty) = true
    · rw [if_pos hall]
      refine .element ?_ fun v hcs => ?_
      · rw [List.filter_append]
        exact (List.append_nil _).symm ▸ returned_laids (k + 1) cs
      · rw [hcs] at hall
        simp [CXmlNode.isElement] at hall
    · rw [if_neg hall]
      cases Returned.refl (d := .element n cs) rfl with
      | element helements htext => exact .element helements htext
theorem returned_laids (k : ℕ) : ∀ cs : List CXmlNode,
    List.Forall₂ Returned (cs.filter CXmlNode.isElement) ((laids k cs).filter CXmlNode.isElement)
  | [] => .nil
  | c :: cs => by
    have hrest := returned_laids k cs
    cases c with
    | element n ds => exact .cons (returned_laid k (.element n ds) rfl) hrest
    | text s => exact hrest
    | other => exact hrest
end

/-! ### From one end to the other -/

section
variable (dump : CXmlNode → List UInt8) (createFromXmlCdata : List UInt8 → Option CXmlNode)

/-- What libxml2 does to one document: the text is not empty, a text whose last tag is cut is
refused, and the elements and numbers come back. -/
structure Carries (d : CXmlNode) : Prop where
  nonempty : dump d ≠ []
  cut : ∀ n, n + 1 < (dump d).length → createFromXmlCdata ((dump d).take n) = none
  reread : ∀ d', createFromXmlCdata (dump d) = some d' → Reread d d'

/-- The text of a document that a parser takes and libxml2 reads. -/
def Legible (d : CXmlNode) : Prop :=
  (dump d).length < CCNI_MAX_LEN ∧ (createFromXmlCdata (dump d)).isSome

/-- The document in a frame that a parser reads to its end, `n` reads at most. -/
def decodedDoc (n : ℕ) (sock : Sock) : Option CXmlNode :=
  let parsed := (CCNIMsgParser.reads n CCNIMsgParser.new sock).1.parse createFromXmlCdata
  if parsed.1 = true then parsed.2.doc else none

/-- The document in a frame that `doServerMessage` reads to its end, `n` reads at most, and puts
into a queue: the frame has a sequence number and a document that can be read. -/
def received (n : ℕ) (sock : Sock) : Option CXmlNode :=
  let pmsg := (CCNIMsgParser.reads n CCNIMsgParser.new sock).1
  let parsed := pmsg.parse createFromXmlCdata
  if parsed.1 = true ∧ pmsg.header.seq ≠ 0 then parsed.2.doc else none

variable {dump createFromXmlCdata}

/-- What `parse` makes of a text that is a document of messages if it is one at all. -/
theorem parse_text {p : CCNIMsgParser} {text : List UInt8} (hstate : p.state = .st_rdok)
    (hdata : p.data = some text)
    (hroot : ∀ root, createFromXmlCdata text = some root → root.name = xmlTagCCNIMessages) :
    ((p.parse createFromXmlCdata).1 = false ∧ createFromXmlCdata text = none) ∨
    ((p.parse createFromXmlCdata).1 = true ∧
      (p.parse createFromXmlCdata).2.doc = createFromXmlCdata text) := by
  unfold CCNIMsgParser.parse
  rw [if_neg (not_not_intro hstate),hdata,Option.getD_some]
  cases hread : createFromXmlCdata text with
  | none => exact .inl ⟨rfl,rfl⟩
  | some root => exact .inr ⟨beq_iff_eq.mpr (hroot root hread),rfl⟩

/-- A document comes through, or nothing does. -/
theorem decodedDoc_eq {msgs : List CXmlNode}
    (hcarries : Carries dump createFromXmlCdata (document msgs)) {seq udata : UInt32}
    {k1 k2 : UInt64} {sock : Sock} (hs : Delivers (CCNIMsgPacker.new.pack
      (some (dump (document msgs))) seq udata k1 k2).2.frame sock) {n : ℕ}
    (hn : sock.recvs.length ≤ n) :
    decodedDoc createFromXmlCdata n sock =
      if (dump (document msgs)).length < CCNI_MAX_LEN then
        createFromXmlCdata (dump (document msgs)) else none := by
  have hmax : CCNI_MAX_LEN = 32768 := rfl
  have hpos := List.length_pos_of_ne_nil hcarries.nonempty
  unfold decodedDoc
  dsimp only
  rcases reads_frame (dump (document msgs)) seq udata k1 k2 hs hn with
    ⟨hshort,hdecoded⟩ | ⟨hstate,hbad⟩
  · by_cases hlt : (dump (document msgs)).length < 65536
    · have hsame := Nat.mod_eq_of_lt hlt
      have hdata := hdecoded.data
      rw [hsame,List.take_length] at hdata
      rw [hsame] at hshort
      have hroot : ∀ root, createFromXmlCdata (dump (document msgs)) = some root →
          root.name = xmlTagCCNIMessages := fun root hread => (hcarries.reread root hread).name
      rcases parse_text hdecoded.state hdata hroot with ⟨hparse,hnone⟩ | ⟨hparse,hdoc⟩
      · simp [hparse,hnone]
      · rw [if_pos hparse,hdoc,if_pos hshort]
    · -- The part of the text that the header covers ends before the last tag.
      have hcut := hcarries.cut ((dump (document msgs)).length % 65536) (by omega)
      have hroot : ∀ root, createFromXmlCdata ((dump (document msgs)).take
          ((dump (document msgs)).length % 65536)) = some root →
          root.name = xmlTagCCNIMessages := fun root hread => by rw [hcut] at hread; cases hread
      rw [if_neg (show ¬ (dump (document msgs)).length < CCNI_MAX_LEN by omega)]
      rcases parse_text hdecoded.state hdecoded.data hroot with ⟨hparse,-⟩ | ⟨hparse,hdoc⟩
      · simp [hparse]
      · simp [hdoc,hcut]
  · rw [CCNIMsgParser.parse_incomplete createFromXmlCdata hstate,if_neg (by simp),
      if_neg (by omega)]

/-- The listener thread of the library drops what has no sequence number. -/
theorem received_eq {msgs : List CXmlNode}
    (hcarries : Carries dump createFromXmlCdata (document msgs)) {seq udata : UInt32}
    {k1 k2 : UInt64} {sock : Sock} (hs : Delivers (CCNIMsgPacker.new.pack
      (some (dump (document msgs))) seq udata k1 k2).2.frame sock) {n : ℕ}
    (hn : sock.recvs.length ≤ n) :
    received createFromXmlCdata n sock =
      if seq ≠ 0 ∧ (dump (document msgs)).length < CCNI_MAX_LEN then
        createFromXmlCdata (dump (document msgs)) else none := by
  have hdoc := decodedDoc_eq hcarries hs hn
  have hdecoded := decoded_of_lt hcarries.nonempty seq udata k1 k2 hs hn
  unfold decodedDoc at hdoc
  unfold received
  dsimp only at hdoc ⊢
  by_cases hlt : (dump (document msgs)).length < CCNI_MAX_LEN
  · rw [(hdecoded hlt).seq]
    rw [if_pos hlt] at hdoc
    by_cases hseq : seq = 0
    · simp [hseq]
    · simpa [hseq,hlt] using hdoc
  · rw [if_neg hlt] at hdoc
    have hnot : ¬ (seq ≠ 0 ∧ (dump (document msgs)).length < CCNI_MAX_LEN) := fun h => hlt h.2
    rw [if_neg hnot]
    split_ifs with hparse
    · rwa [if_pos hparse.1] at hdoc
    · rfl

end
end CcniServer
