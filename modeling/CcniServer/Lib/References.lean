import CcniServer.Lib.Scan

/-! Texts with references, `&name;`, `&#n;` and `&#xn;`: what a reader that expands them does to a
text, and the texts that no such reader changes. -/
namespace References

/-- The characters that a document may hold. -/
def isLegal (c : Char) : Bool :=
  c.toNat = 9 || c.toNat = 10 || c.toNat = 13 ||
    (32 ≤ c.toNat && c.toNat ≠ 0xFFFE && c.toNat ≠ 0xFFFF)

def entities : List (List Char × Char) :=
  [(['l','t'],'<'),(['g','t'],'>'),(['a','m','p'],'&'),(['q','u','o','t'],'"'),
   (['a','p','o','s'],'\'')]

def isHexDigit (c : Char) : Bool :=
  c.isDigit || ('a' ≤ c && c ≤ 'f') || ('A' ≤ c && c ≤ 'F')

def hexDigit (c : Char) : ℕ :=
  if c.isDigit then c.toNat - 48 else if 'a' ≤ c then c.toNat - 87 else c.toNat - 55

def hexValue (ds : List Char) : ℕ := ds.foldl (fun n c => 16*n + hexDigit c) 0

def charOf (n : ℕ) : Option Char :=
  if n.isValidChar ∧ isLegal (Char.ofNat n) = true then some (Char.ofNat n) else none

/-- The character that the text between `&` and `;` stands for. -/
def value : List Char → Option Char
  | '#' :: 'x' :: ds => if ds ≠ [] ∧ ds.all isHexDigit = true then charOf (hexValue ds) else none
  | '#' :: ds =>
    if ds ≠ [] ∧ ds.all Char.isDigit = true then charOf (Scan.digitsValue ds) else none
  | name => (entities.find? (fun e => e.1 == name)).map Prod.snd

/-- The character of the reference at the head of a text, and the text after it. -/
def reference (cs : List Char) : Option (Char × List Char) :=
  match cs.dropWhile (fun c => c ≠ ';') with
  | [] => none
  | _ :: rest => (value (cs.takeWhile (fun c => c ≠ ';'))).map (fun c => (c,rest))

theorem reference_some {cs rest : List Char} {c : Char} (h : reference cs = some (c,rest)) :
    ∃ body, cs = body ++ ';' :: rest ∧ value body = some c := by
  have hsplit := List.takeWhile_append_dropWhile (p := fun c => decide (c ≠ ';')) (l := cs)
  unfold reference at h
  cases hdrop : cs.dropWhile (fun c => decide (c ≠ ';')) with
  | nil =>
    rw [hdrop] at h
    cases h
  | cons d ds =>
    have hsemi : d = ';' := by
      have hhead := List.head?_dropWhile_not (fun c => decide (c ≠ ';')) cs
      rw [hdrop] at hhead
      simpa using hhead
    rw [hdrop] at h hsplit
    obtain ⟨d',hvalue,hpair⟩ := Option.map_eq_some_iff.mp h
    cases hpair
    exact ⟨_,hsemi ▸ hsplit.symm,hvalue⟩

theorem reference_length {cs rest : List Char} {c : Char} (h : reference cs = some (c,rest)) :
    rest.length < cs.length := by
  obtain ⟨body,rfl,-⟩ := reference_some h
  simp only [List.length_append,List.length_cons]
  omega

/-- A reader that drops what follows a `&` with no reference. -/
def expand : List Char → List Char
  | [] => []
  | c :: cs =>
    if c = '&' then
      match _href : reference cs with
      | some (d,rest) => d :: expand rest
      | none => []
    else c :: expand cs
termination_by cs => cs.length
decreasing_by
  · have hlt := reference_length _href
    simp only [List.length_cons]
    omega
  · simp

/-- The readers that expand references and leave other texts alone; what they make of a `&` with
no reference is open. -/
structure Expansion (e : List Char → List Char) : Prop where
  plain : ∀ v, '&' ∉ v → e v = v
  reference : ∀ u body w c, '&' ∉ u → ';' ∉ body → value body = some c →
    e (u ++ '&' :: (body ++ ';' :: w)) = u ++ c :: e w
  legal : ∀ v, (∀ c ∈ v, isLegal c = true) → ∀ c ∈ e v, isLegal c = true

theorem expand_append {u : List Char} (h : '&' ∉ u) (w : List Char) :
    expand (u ++ w) = u ++ expand w := by
  induction u with
  | nil => rfl
  | cons c u ih =>
    rw [List.mem_cons,not_or] at h
    rw [List.cons_append,expand,if_neg (Ne.symm h.1),ih h.2,List.cons_append]

theorem reference_body {body : List Char} (h : ';' ∉ body) (w : List Char) :
    reference (body ++ ';' :: w) = (value body).map (fun c => (c,w)) := by
  have hall : ∀ c ∈ body, decide (c ≠ ';') = true := fun c hc =>
    decide_eq_true fun heq => h (heq ▸ hc)
  have htake : (body ++ ';' :: w).takeWhile (fun c => c ≠ ';') = body := by
    rw [List.takeWhile_append_of_pos hall]
    simp
  have hdrop : (body ++ ';' :: w).dropWhile (fun c => c ≠ ';') = ';' :: w := by
    rw [List.dropWhile_append_of_pos hall]
    simp
  unfold reference
  rw [hdrop,htake]

theorem charOf_legal {n : ℕ} {c : Char} (h : charOf n = some c) : isLegal c = true := by
  unfold charOf at h
  split_ifs at h with hn
  cases h
  exact hn.2

theorem value_legal {body : List Char} {c : Char} (h : value body = some c) :
    isLegal c = true := by
  unfold value at h
  split at h
  · split_ifs at h
    exact charOf_legal h
  · split_ifs at h
    exact charOf_legal h
  · obtain ⟨e,he,rfl⟩ := Option.map_eq_some_iff.mp h
    have hall : ∀ e ∈ entities, isLegal e.2 = true := by decide
    exact hall e (List.mem_of_find?_eq_some he)

theorem expand_legal {v : List Char} (hv : ∀ c ∈ v, isLegal c = true) :
    ∀ c ∈ expand v, isLegal c = true := by
  fun_induction expand v with
  | case1 => exact hv
  | case2 cs d rest href ih =>
    obtain ⟨body,rfl,hvalue⟩ := reference_some href
    intro c hc
    rcases List.mem_cons.mp hc with rfl | hc
    · exact value_legal hvalue
    · refine ih (fun c hc => hv c ?_) c hc
      simp [hc]
  | case3 cs href => nofun
  | case4 c cs hne ih =>
    intro d hd
    rcases List.mem_cons.mp hd with rfl | hd
    · exact hv d List.mem_cons_self
    · exact ih (fun c hc => hv c (List.mem_cons_of_mem _ hc)) d hd

/-- The reader is one of them. -/
theorem expansion_expand : Expansion expand where
  plain := fun v hv => by
    have h := expand_append hv []
    rwa [List.append_nil,expand,List.append_nil] at h
  reference := by
    intro u body w c hu hbody hvalue
    rw [expand_append hu,expand,if_pos rfl]
    have href := reference_body hbody w
    rw [hvalue,Option.map_some] at href
    split
    · next hsome =>
      rw [href] at hsome
      cases hsome
      rfl
    · next hnone =>
      rw [href] at hnone
      cases hnone
  legal := fun v hv => expand_legal hv

/-- A reference is longer than what it stands for. -/
theorem length_expand_le (v : List Char) : (expand v).length ≤ v.length := by
  fun_induction expand v with
  | case1 => exact le_rfl
  | case2 cs d rest href ih =>
    have hlt := reference_length href
    simp only [List.length_cons]
    omega
  | case3 cs href => exact Nat.zero_le _
  | case4 c cs hne ih => simpa using ih

theorem length_expand_lt {v : List Char} (h : '&' ∈ v) : (expand v).length < v.length := by
  fun_induction expand v with
  | case1 => cases h
  | case2 cs d rest href ih =>
    have hlt := reference_length href
    have hle := length_expand_le rest
    simp only [List.length_cons]
    omega
  | case3 cs href => exact Nat.succ_pos _
  | case4 c cs hne ih =>
    have hmem := (List.mem_cons.mp h).resolve_left (Ne.symm hne)
    simpa using ih hmem

/-- A text comes out as it went in exactly if there is no `&` in it. -/
theorem expand_eq_iff {v : List Char} : expand v = v ↔ '&' ∉ v := by
  constructor
  · intro heq hmem
    exact absurd (congrArg List.length heq) (length_expand_lt hmem).ne
  · exact expansion_expand.plain v

end References
