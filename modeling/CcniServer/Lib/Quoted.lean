import Mathlib.Data.List.Basic

/-! Text with quoted literals: a quote opens a literal, two quotes inside it stand for one, and
a single quote closes it. -/
namespace Quoted
variable {α β : Type*}

/-- A symbol outside the literals, a literal with its decoded content, or the literal that the
end of the text cuts off. -/
inductive Token (α : Type*)
  | plain (c : α)
  | literal (cs : List α)
  | unclosed (cs : List α)
  deriving DecidableEq

/-- What the lexer has read of a literal: after `quote` it is closed, unless a second quote
follows. -/
inductive State (α : Type*)
  | outside
  | inside (cs : List α)
  | quote (cs : List α)

namespace Token

/-- The decoded content. -/
def content : Token α → List α
  | plain _ => []
  | literal cs => cs
  | unclosed cs => cs

/-- The symbols of a token put in place by `f`. -/
def subst (f : α → List β) : Token α → List (Token β)
  | plain c => (f c).map plain
  | literal cs => [literal (cs.flatMap f)]
  | unclosed cs => [unclosed (cs.flatMap f)]

/-- A token without the content of its literal. -/
def shape : Token α → Token α
  | plain c => plain c
  | literal _ => literal []
  | unclosed _ => unclosed []

end Token

def State.map (f : α → List β) : State α → State β
  | .outside => .outside
  | .inside cs => .inside (cs.flatMap f)
  | .quote cs => .quote (cs.flatMap f)

section lex
variable [DecidableEq α] (q : α)

def lexFrom : State α → List α → List (Token α)
  | .outside, [] => []
  | .inside cs, [] => [.unclosed cs]
  | .quote cs, [] => [.literal cs]
  | .outside, c :: rest =>
    if c = q then lexFrom (.inside []) rest else .plain c :: lexFrom .outside rest
  | .inside cs, c :: rest =>
    if c = q then lexFrom (.quote cs) rest else lexFrom (.inside (cs ++ [c])) rest
  | .quote cs, c :: rest =>
    if c = q then lexFrom (.inside (cs ++ [q])) rest
    else .literal cs :: .plain c :: lexFrom .outside rest

/-- The tokens of a text. -/
def lex (cs : List α) : List (Token α) := lexFrom q .outside cs

/-- The content of a literal as it is written, with every quote doubled. -/
def escape (cs : List α) : List α := cs.flatMap (fun c => if c = q then [q,q] else [c])

/-- A token as it is written. -/
def Token.source : Token α → List α
  | .plain c => [c]
  | .literal cs => q :: escape q cs ++ [q]
  | .unclosed cs => q :: escape q cs

def State.source : State α → List α
  | .outside => []
  | .inside cs => q :: escape q cs
  | .quote cs => q :: escape q cs ++ [q]

variable {q}

@[simp] theorem escape_append (cs ds : List α) :
    escape q (cs ++ ds) = escape q cs ++ escape q ds := List.flatMap_append

theorem escape_self : escape q [q] = [q,q] := by simp [escape]

theorem escape_of_ne {c : α} (h : c ≠ q) : escape q [c] = [c] := by simp [escape,h]

theorem length_escape (cs : List α) : (escape q cs).length = cs.length + cs.count q := by
  induction cs with
  | nil => rfl
  | cons c cs ih =>
    rw [← List.singleton_append,escape_append,List.length_append,ih]
    by_cases h : c = q
    · rw [h,escape_self]
      simp
      omega
    · rw [escape_of_ne h]
      simp [h]
      omega

/-- The tokens of a text, written again, are the text. -/
theorem source_lexFrom (st : State α) (cs : List α) :
    (lexFrom q st cs).flatMap (Token.source q) = st.source q ++ cs := by
  induction cs generalizing st with
  | nil => cases st <;> simp [lexFrom,State.source,Token.source]
  | cons c cs ih =>
    by_cases h : c = q
    · cases st <;> simp [lexFrom,h,ih,State.source,escape]
    · cases st <;> simp [lexFrom,h,ih,State.source,Token.source,escape_of_ne h]

theorem source_lex (cs : List α) : (lex q cs).flatMap (Token.source q) = cs :=
  source_lexFrom .outside cs

theorem plain_ne_from {c : α} {st : State α} {cs : List α} (h : .plain c ∈ lexFrom q st cs) :
    c ≠ q := by
  induction cs generalizing st with
  | nil => cases st <;> simp [lexFrom] at h
  | cons d cs ih =>
    by_cases hd : d = q
    · cases st <;> exact ih (by simpa [lexFrom,hd] using h)
    · cases st with
      | inside ds => exact ih (by simpa [lexFrom,hd] using h)
      | outside =>
        simp only [lexFrom,hd,if_false,List.mem_cons,Token.plain.injEq] at h
        rcases h with rfl | h
        · exact hd
        · exact ih h
      | quote ds =>
        simp only [lexFrom,hd,if_false,List.mem_cons,Token.plain.injEq,reduceCtorEq,
          false_or] at h
        rcases h with rfl | h
        · exact hd
        · exact ih h

/-- No quote stands outside the literals. -/
theorem plain_ne {c : α} {cs : List α} (h : .plain c ∈ lex q cs) : c ≠ q := plain_ne_from h

/-- Every symbol but the quote stands in a token. -/
theorem mem_of_mem {c : α} {cs : List α} (h : c ∈ cs) (hc : c ≠ q) :
    .plain c ∈ lex q cs ∨ ∃ t ∈ lex q cs, c ∈ t.content := by
  have hescape : ∀ ds : List α, c ∈ escape q ds → c ∈ ds := by
    intro ds hds
    obtain ⟨d,hd,hcd⟩ := List.mem_flatMap.mp hds
    split_ifs at hcd with hdq
    · simp [hc] at hcd
    · exact List.mem_singleton.mp hcd ▸ hd
  rw [← source_lex (q := q) cs] at h
  obtain ⟨t,ht,hct⟩ := List.mem_flatMap.mp h
  cases t with
  | plain d =>
    left
    exact List.mem_singleton.mp hct ▸ ht
  | literal ds =>
    right
    refine ⟨_,ht,hescape ds ?_⟩
    simpa [Token.source,hc] using hct
  | unclosed ds =>
    right
    refine ⟨_,ht,hescape ds ?_⟩
    simpa [Token.source,hc] using hct

/-! ### Text without quotes -/

theorem lexFrom_outside {cs : List α} (h : q ∉ cs) (rest : List α) :
    lexFrom q .outside (cs ++ rest) = cs.map .plain ++ lexFrom q .outside rest := by
  induction cs with
  | nil => rfl
  | cons c cs ih =>
    rw [List.mem_cons,not_or] at h
    simp [lexFrom,Ne.symm h.1,ih h.2]

theorem lexFrom_inside {cs : List α} (h : q ∉ cs) (ds rest : List α) :
    lexFrom q (.inside ds) (cs ++ rest) = lexFrom q (.inside (ds ++ cs)) rest := by
  induction cs generalizing ds with
  | nil => simp
  | cons c cs ih =>
    rw [List.mem_cons,not_or] at h
    simp [lexFrom,Ne.symm h.1,ih h.2]

theorem lexFrom_quote {cs : List α} (h : q ∉ cs) (hne : cs ≠ []) (ds rest : List α) :
    lexFrom q (.quote ds) (cs ++ rest)
      = .literal ds :: (cs.map .plain ++ lexFrom q .outside rest) := by
  cases cs with
  | nil => exact absurd rfl hne
  | cons c cs =>
    rw [List.mem_cons,not_or] at h
    simp [lexFrom,Ne.symm h.1,lexFrom_outside h.2]

end lex

/-! ### Substitution -/

section subst
variable [DecidableEq α] [DecidableEq β] {q : α} {q' : β} {f : α → List β}

/-- Symbols replaced by text without quotes leave the tokens as they are. -/
theorem lexFrom_flatMap (hq : f q = [q']) {st : State α} {cs : List α}
    (hf : ∀ c ∈ cs, c ≠ q → q' ∉ f c) (hne : ∀ c, .plain c ∈ lexFrom q st cs → f c ≠ []) :
    lexFrom q' (st.map f) (cs.flatMap f) = (lexFrom q st cs).flatMap (Token.subst f) := by
  induction cs generalizing st with
  | nil => cases st <;> simp [lexFrom,State.map,Token.subst]
  | cons c cs ih =>
    have hrest : ∀ c ∈ cs, c ≠ q → q' ∉ f c := fun c hc => hf c (List.mem_cons_of_mem _ hc)
    rw [List.flatMap_cons]
    by_cases h : c = q
    · rw [h,hq]
      rw [h] at hne
      cases st with
      | outside =>
        have ih := @ih (.inside []) hrest (by simpa [lexFrom] using hne)
        simpa [lexFrom,State.map] using ih
      | inside ds =>
        have ih := @ih (.quote ds) hrest (by simpa [lexFrom] using hne)
        simpa [lexFrom,State.map] using ih
      | quote ds =>
        have ih := @ih (.inside (ds ++ [q])) hrest (by simpa [lexFrom] using hne)
        simpa [lexFrom,State.map,hq] using ih
    · have hclean : q' ∉ f c := hf c List.mem_cons_self h
      cases st with
      | outside =>
        have ih := @ih .outside hrest fun d hd => hne d (by simp [lexFrom,h,hd])
        rw [State.map,lexFrom_outside hclean]
        rw [State.map] at ih
        simp [lexFrom,h,ih,Token.subst]
      | inside ds =>
        have ih := @ih (.inside (ds ++ [c])) hrest (by simpa [lexFrom,h] using hne)
        rw [State.map,lexFrom_inside hclean]
        simpa [lexFrom,h,State.map] using ih
      | quote ds =>
        have ih := @ih .outside hrest fun d hd => hne d (by simp [lexFrom,h,hd])
        have hfc : f c ≠ [] := hne c (by simp [lexFrom,h])
        rw [State.map,lexFrom_quote hclean hfc]
        rw [State.map] at ih
        simp [lexFrom,h,ih,Token.subst]

/-- Inside a literal the quotes of a substituted text would have to be doubled. -/
theorem length_escape_flatMap (hq : f q = [q']) (cs : List α) :
    ((escape q cs).flatMap f).length ≤ (escape q' (cs.flatMap f)).length ∧
      (((escape q cs).flatMap f).length = (escape q' (cs.flatMap f)).length →
        ∀ c ∈ cs, c ≠ q → q' ∉ f c) := by
  induction cs with
  | nil => simp [escape]
  | cons c cs ih =>
    have hcons : escape q (c :: cs) = escape q [c] ++ escape q cs :=
      escape_append (q := q) [c] cs
    rw [hcons,List.flatMap_cons,List.flatMap_append,escape_append,List.length_append,
      List.length_append]
    by_cases h : c = q
    · rw [h,hq,escape_self,escape_self]
      simp only [List.flatMap_cons,hq,List.flatMap_nil]
      refine ⟨by simpa using ih.1,fun heq d hd hdq => ?_⟩
      rcases List.mem_cons.mp hd with rfl | hd
      · exact absurd rfl hdq
      · exact ih.2 (by simpa using heq) d hd hdq
    · rw [escape_of_ne h,List.flatMap_singleton]
      have hlen := length_escape (q := q') (f c)
      refine ⟨by omega,fun heq d hd hdq => ?_⟩
      rcases List.mem_cons.mp hd with rfl | hd
      · exact List.count_eq_zero.mp (by omega)
      · exact ih.2 (by omega) d hd hdq

theorem length_source_subst (hq : f q = [q']) (t : Token α) :
    ((t.source q).flatMap f).length ≤ ((t.subst f).flatMap (Token.source q')).length ∧
      (((t.source q).flatMap f).length = ((t.subst f).flatMap (Token.source q')).length →
        ∀ c ∈ t.content, c ≠ q → q' ∉ f c) := by
  cases t with
  | plain c => simp [Token.source,Token.subst,Token.content,List.flatMap_map]
  | literal cs =>
    have h := length_escape_flatMap hq cs
    simp only [Token.source,Token.subst,Token.content,List.flatMap_cons,List.flatMap_append,hq,
      List.flatMap_nil,List.append_nil,List.length_append,List.length_cons,List.length_nil]
    exact ⟨by omega,fun heq => h.2 (by omega)⟩
  | unclosed cs =>
    have h := length_escape_flatMap hq cs
    simp only [Token.source,Token.subst,Token.content,List.flatMap_cons,hq,
      List.flatMap_nil,List.append_nil,List.length_append,List.length_cons,List.length_nil]
    exact ⟨by omega,fun heq => h.2 (by omega)⟩

theorem length_sources_subst (hq : f q = [q']) (ts : List (Token α)) :
    ((ts.flatMap (Token.source q)).flatMap f).length
        ≤ ((ts.flatMap (Token.subst f)).flatMap (Token.source q')).length ∧
      (((ts.flatMap (Token.source q)).flatMap f).length
          = ((ts.flatMap (Token.subst f)).flatMap (Token.source q')).length →
        ∀ t ∈ ts, ∀ c ∈ t.content, c ≠ q → q' ∉ f c) := by
  induction ts with
  | nil => simp
  | cons t ts ih =>
    have ht := length_source_subst hq t
    simp only [List.flatMap_cons,List.flatMap_append,List.length_append]
    refine ⟨by omega,fun heq u hu => ?_⟩
    rcases List.mem_cons.mp hu with rfl | hu
    · exact ht.2 (by omega)
    · exact ih.2 (by omega) u hu

/-- Where nothing with a quote and nothing empty is put outside the literals, the tokens stand
exactly when nothing with a quote is put into them. -/
theorem lex_flatMap_iff (hq : f q = [q']) {cs : List α}
    (hplain : ∀ c, .plain c ∈ lex q cs → f c ≠ [] ∧ q' ∉ f c) :
    lex q' (cs.flatMap f) = (lex q cs).flatMap (Token.subst f)
      ↔ ∀ t ∈ lex q cs, ∀ c ∈ t.content, c ≠ q → q' ∉ f c := by
  constructor
  · intro h
    apply (length_sources_subst hq (lex q cs)).2
    rw [← h,source_lex,source_lex]
  · intro h
    refine @lexFrom_flatMap _ _ _ _ _ _ _ hq .outside cs (fun c hc hne => ?_)
      fun c hc => (hplain c hc).1
    rcases mem_of_mem hc hne with hc | ⟨t,ht,hct⟩
    · exact (hplain c hc).2
    · exact h t ht c hct hne

end subst
end Quoted
