import CcniServer.Lib.Quoted
import Mathlib.Data.Int.Basic
import Mathlib.Data.List.TakeWhile

/-! The SQL statements of `CDataBase`. They are printed with `sprintf` and read by SQLite, which
splits them into single-quoted literals and the text around them. -/
namespace CcniServer
open Quoted

/-- A C string without its closing NUL. -/
abbrev CString := {cs : List Char // Char.ofNat 0 ∉ cs}

/-- `std::string::c_str`, read as a C string. -/
def c_str (s : String) : CString :=
  ⟨s.toList.takeWhile (· ≠ Char.ofNat 0),fun h => by simpa using List.mem_takeWhile_imp h⟩

/-! ### `sprintf` -/

/-- A character of a format, or the conversion of the `n`-th argument. -/
inductive Symbol
  | char (c : Char)
  | str (n : ℕ)
  | int (n : ℕ)
  deriving DecidableEq

/-- The symbols of a format, from the `n`-th argument on. -/
def symbols : ℕ → List Char → List Symbol
  | n, '%' :: 's' :: cs => .str n :: symbols (n + 1) cs
  | n, '%' :: 'd' :: cs => .int n :: symbols (n + 1) cs
  | n, c :: cs => .char c :: symbols n cs
  | _, [] => []

inductive Arg
  | str (s : CString)
  | int (n : ℤ)

def Arg.text : Arg → List Char
  | str s => s.val
  | int n => (toString n).toList

/-- What a symbol prints. -/
def print (args : List Arg) : Symbol → List Char
  | .char c => [c]
  | .str n => (args[n]?.map Arg.text).getD []
  | .int n => (args[n]?.map Arg.text).getD []

def sprintf (format : String) (args : List Arg) : List Char :=
  (symbols 0 format.toList).flatMap (print args)

theorem flatMap_print_char (args : List Arg) (cs : List Char) :
    (cs.map Symbol.char).flatMap (print args) = cs := by
  rw [List.flatMap_map]
  exact List.flatMap_singleton' cs

/-- The bytes of a text in UTF-8. -/
def bytes (cs : List Char) : List UInt8 := cs.flatMap String.utf8EncodeChar

@[simp] theorem bytes_append (cs ds : List Char) : bytes (cs ++ ds) = bytes cs ++ bytes ds :=
  List.flatMap_append

theorem length_bytes {cs : List Char} (h : ∀ c ∈ cs, c.utf8Size = 1) :
    (bytes cs).length = cs.length := by
  induction cs with
  | nil => rfl
  | cons c cs ih =>
    rw [List.forall_mem_cons] at h
    rw [bytes,List.flatMap_cons,List.length_append,String.length_utf8EncodeChar,h.1]
    have hrest := ih h.2
    rw [bytes] at hrest
    rw [hrest,List.length_cons]
    omega

/-! ### Statements -/

def sqlUpdateUserLoginTm : String :=
  "UPDATE USER SET LastLoginTime = '%s' WHERE Name='%s';"

def sqlUpdateUser : String :=
  "UPDATE USER SET NickName = '%s, Password = '%s', LastLoginTime = '%s', Score = '%d' WHERE Name='%s';"

def sqlSelectUser : String := "SELECT * FROM USER WHERE Name='%s';"

def SQL_BUFLEN : ℕ := 2048

/-- The size of `stm`, which the time is printed into. -/
def STM_BUFLEN : ℕ := 16

structure CRecord where
  name : String
  pwd : String
  nicName : String
  lastLoginTime : String
  score : Int32

/-- The fields of `struct tm` that the login time is printed from. -/
structure Tm where
  tm_year : Int32
  tm_mon : Int32
  tm_mday : Int32
  tm_hour : Int32
  tm_min : Int32
  tm_sec : Int32

/-- The conversion `%0wd`. -/
def padded (w : ℕ) (n : ℤ) : List Char :=
  if n < 0 then '-' :: (Nat.toDigits 10 n.natAbs).leftpad (w - 1) '0'
  else (Nat.toDigits 10 n.natAbs).leftpad w '0'

theorem padded_char {w : ℕ} {n : ℤ} {c : Char} (h : c ∈ padded w n) :
    c.isDigit ∨ c = '-' := by
  have hdigits : ∀ v : ℕ, c ∈ (Nat.toDigits 10 n.natAbs).leftpad v '0' → c.isDigit := by
    intro v hv
    rcases List.mem_append.mp hv with hv | hv
    · rw [(List.mem_replicate.mp hv).2]
      rfl
    · exact Nat.isDigit_of_mem_toDigits (by decide) (by decide) hv
  unfold padded at h
  split_ifs at h with hn
  · rcases List.mem_cons.mp h with h | h
    · exact .inr h
    · exact .inl (hdigits _ h)
  · exact .inl (hdigits _ h)

/-- The text of the local time. -/
def stamp (ltm : Tm) : List Char :=
  padded 4 (ltm.tm_year.toInt + 1900) ++ padded 2 (ltm.tm_mon.toInt + 1) ++
    padded 2 ltm.tm_mday.toInt ++ padded 2 ltm.tm_hour.toInt ++ padded 2 ltm.tm_min.toInt ++
    padded 2 ltm.tm_sec.toInt

theorem stamp_char {ltm : Tm} {c : Char} (h : c ∈ stamp ltm) : c.isDigit ∨ c = '-' := by
  simp only [stamp,List.mem_append,or_assoc] at h
  rcases h with h | h | h | h | h | h <;> exact padded_char h

theorem not_mem_stamp {ltm : Tm} {c : Char} (hc : ¬ c.isDigit) (hminus : c ≠ '-') :
    c ∉ stamp ltm := fun h => (stamp_char h).elim hc hminus

theorem length_bytes_stamp (ltm : Tm) : (bytes (stamp ltm)).length = (stamp ltm).length := by
  apply length_bytes
  intro c hc
  rcases stamp_char hc with hdigit | rfl
  · simp only [Char.isDigit,Bool.and_eq_true,decide_eq_true_eq] at hdigit
    have hle : c.val ≤ 0x7f := UInt32.le_trans hdigit.2 (by decide)
    unfold Char.utf8Size
    exact if_pos hle
  · rfl

def stm (ltm : Tm) : CString := ⟨stamp ltm,not_mem_stamp (by decide) (by decide)⟩

/-- The functions that build a statement from user data, with what they print into it. -/
inductive Statement
  | verifyUser (name : CString)
  | updateUserLoginTime (ltm : Tm) (uname : CString)
  | updateUser (rec : CRecord)

namespace Statement

def format : Statement → String
  | verifyUser _ => sqlSelectUser
  | updateUserLoginTime _ _ => sqlUpdateUserLoginTm
  | updateUser _ => sqlUpdateUser

def args : Statement → List Arg
  | verifyUser name => [.str name]
  | updateUserLoginTime ltm uname => [.str (stm ltm),.str uname]
  | updateUser rec => [.str (c_str rec.nicName),.str (c_str rec.pwd),
      .str (c_str rec.lastLoginTime),.int rec.score.toInt,.str (c_str rec.name)]

/-- The text that is printed into `sqlbuf`. -/
def printed (st : Statement) : List Char := sprintf st.format st.args

/-- The texts that are printed one after the other, each with the size of its buffer. -/
def prints (st : Statement) : List (ℕ × List Char) :=
  match st with
  | verifyUser _ => [(SQL_BUFLEN,st.printed)]
  | updateUserLoginTime ltm _ => [(STM_BUFLEN,stamp ltm),(SQL_BUFLEN,st.printed)]
  | updateUser _ => [(SQL_BUFLEN,st.printed)]

/-- The statement in `sqlbuf`, nothing where a text and its NUL run over the end of a buffer. -/
def text (st : Statement) : Option (List Char) :=
  if ∀ p ∈ st.prints, (bytes p.2).length < p.1 then some st.printed else none

def quote : Char := Char.ofNat 39

/-- The tokens of the statement. -/
def tokens (st : Statement) : Option (List (Token Char)) := st.text.map (lex quote)

/-- The tokens of its template, the conversions taken as symbols. -/
def template (st : Statement) : List (Token Symbol) := lex (.char quote) (symbols 0 st.format.toList)

/-- The statement that asks for one name. -/
def selectName (name : List Char) : List (Token Char) :=
  "SELECT * FROM USER WHERE Name=".toList.map .plain ++ [.literal name,.plain ';']

section
variable (selects : List (Token Char) → CRecord → Prop)

/-- The user data has not changed the statement: every `%s` is a literal of the template, the
tokens are the template's with the arguments in place, and a row that `verifyUser` selects has
the name asked for. -/
structure Faithful (st : Statement) : Prop where
  slots : ∀ n, .plain (.str n) ∉ st.template ∧
    ∀ t ∈ st.template, .str n ∈ t.content → t = .literal [.str n]
  decoded : st.tokens = some (st.template.flatMap (Token.subst (print st.args)))
  row : ∀ name, st = verifyUser name → ∀ ts ∈ st.tokens, ∀ r, selects ts r →
    r.name.toList = name.val

/-- No quote in the user name, and not the template that lacks one. -/
def Quoteless : Statement → Prop
  | verifyUser name => quote ∉ name.val
  | updateUserLoginTime _ uname => quote ∉ uname.val
  | updateUser _ => False

/-- The user name, and the time in front of it, leave room in the buffers. -/
def Fits : Statement → Prop
  | verifyUser name => (bytes name.val).length ≤ 2014
  | updateUserLoginTime ltm uname => (stamp ltm).length ≤ 15 ∧
      (stamp ltm).length + (bytes uname.val).length ≤ 1998
  | updateUser _ => False

/-! ### The buffers -/

theorem text_eq_some_iff {st : Statement} {ts : List Char} :
    st.text = some ts ↔ (∀ p ∈ st.prints, (bytes p.2).length < p.1) ∧ st.printed = ts := by
  unfold text
  split_ifs with h
  · rw [Option.some_inj,and_iff_right h]
  · exact iff_of_false nofun fun hboth => h hboth.1

theorem verifyUser_printed (name : CString) : (verifyUser name).printed =
    "SELECT * FROM USER WHERE Name='".toList ++ (name.val ++ "';".toList) := by
  have hsymbols : symbols 0 sqlSelectUser.toList =
      "SELECT * FROM USER WHERE Name='".toList.map .char ++ .str 0 :: "';".toList.map .char := by
    decide
  have hformat : (verifyUser name).format = sqlSelectUser := rfl
  rw [printed,sprintf,hformat,hsymbols,List.flatMap_append,List.flatMap_cons,flatMap_print_char,
    flatMap_print_char]
  rfl

theorem length_verifyUser (name : CString) :
    (bytes (verifyUser name).printed).length = (bytes name.val).length + 33 := by
  have hfront : (bytes "SELECT * FROM USER WHERE Name='".toList).length = 31 := by decide
  have hback : (bytes "';".toList).length = 2 := by decide
  rw [verifyUser_printed,bytes_append,bytes_append,List.length_append,List.length_append,hfront,
    hback]
  omega

theorem updateUserLoginTime_printed (ltm : Tm) (uname : CString) :
    (updateUserLoginTime ltm uname).printed = "UPDATE USER SET LastLoginTime = '".toList ++
      (stamp ltm ++ ("' WHERE Name='".toList ++ (uname.val ++ "';".toList))) := by
  have hsymbols : symbols 0 sqlUpdateUserLoginTm.toList =
      "UPDATE USER SET LastLoginTime = '".toList.map .char ++
        .str 0 :: ("' WHERE Name='".toList.map .char ++ .str 1 :: "';".toList.map .char) := by
    decide
  have hformat : (updateUserLoginTime ltm uname).format = sqlUpdateUserLoginTm := rfl
  rw [printed,sprintf,hformat,hsymbols,List.flatMap_append,List.flatMap_cons,List.flatMap_append,
    List.flatMap_cons,flatMap_print_char,flatMap_print_char,flatMap_print_char]
  rfl

theorem length_updateUserLoginTime (ltm : Tm) (uname : CString) :
    (bytes (updateUserLoginTime ltm uname).printed).length =
      (stamp ltm).length + (bytes uname.val).length + 49 := by
  have hfront : (bytes "UPDATE USER SET LastLoginTime = '".toList).length = 33 := by decide
  have hmiddle : (bytes "' WHERE Name='".toList).length = 14 := by decide
  have hback : (bytes "';".toList).length = 2 := by decide
  rw [updateUserLoginTime_printed,bytes_append,bytes_append,bytes_append,bytes_append]
  simp only [List.length_append,hfront,hmiddle,hback,length_bytes_stamp]
  omega

theorem verifyUser_text (name : CString) :
    (verifyUser name).text = some (verifyUser name).printed ↔ (verifyUser name).Fits := by
  rw [text_eq_some_iff,and_iff_left rfl,prints,List.forall_mem_singleton,length_verifyUser,
    SQL_BUFLEN,Fits]
  omega

theorem updateUserLoginTime_text (ltm : Tm) (uname : CString) :
    (updateUserLoginTime ltm uname).text = some (updateUserLoginTime ltm uname).printed ↔
      (updateUserLoginTime ltm uname).Fits := by
  rw [text_eq_some_iff,and_iff_left rfl,prints,List.forall_mem_cons,List.forall_mem_singleton,
    length_updateUserLoginTime,length_bytes_stamp,SQL_BUFLEN,STM_BUFLEN,Fits]
  omega

/-! ### The templates -/

/-- The tokens of a piece of a template without conversions. -/
def fixed (s : String) : List (Token Symbol) := s.toList.map (.plain ∘ .char)

/-- The tokens of a template whose conversions fill the literals between its pieces. -/
def slotted (last : String) : List (String × ℕ) → List (Token Symbol)
  | [] => fixed last
  | (s,n) :: ps => fixed s ++ .literal [.str n] :: slotted last ps

theorem sqlSelectUser_template : lex (.char quote) (symbols 0 sqlSelectUser.toList) =
    slotted ";" [("SELECT * FROM USER WHERE Name=",0)] := by
  decide

theorem sqlUpdateUserLoginTm_template :
    lex (.char quote) (symbols 0 sqlUpdateUserLoginTm.toList) =
      slotted ";" [("UPDATE USER SET LastLoginTime = ",0),(" WHERE Name=",1)] := by
  decide

/-- The password stands between two literals. -/
theorem sqlUpdateUser_template :
    .plain (.str 1) ∈ lex (.char quote) (symbols 0 sqlUpdateUser.toList) := by
  decide

theorem mem_slotted {last : String} {ps : List (String × ℕ)} {t : Token Symbol}
    (h : t ∈ slotted last ps) :
    (∃ c, t = .plain (.char c)) ∨ ∃ p ∈ ps, t = .literal [.str p.2] := by
  have hfixed : ∀ s : String, t ∈ fixed s → ∃ c, t = .plain (.char c) := by
    intro s hs
    obtain ⟨c,-,rfl⟩ := List.mem_map.mp hs
    exact ⟨c,rfl⟩
  induction ps with
  | nil => exact .inl (hfixed _ h)
  | cons p ps ih =>
    rcases List.mem_append.mp h with h | h
    · exact .inl (hfixed _ h)
    · rcases List.mem_cons.mp h with rfl | h
      · exact .inr ⟨p,List.mem_cons_self,rfl⟩
      · rcases ih h with hc | ⟨p',hp',ht⟩
        · exact .inl hc
        · exact .inr ⟨p',List.mem_cons_of_mem _ hp',ht⟩

theorem slot_mem {last : String} {ps : List (String × ℕ)} {p : String × ℕ} (h : p ∈ ps) :
    .literal [.str p.2] ∈ slotted last ps := by
  induction ps with
  | nil => simp at h
  | cons p' ps ih =>
    rcases List.mem_cons.mp h with rfl | h
    · simp [slotted]
    · simp [slotted,ih h]

theorem slotted_slots (last : String) (ps : List (String × ℕ)) (n : ℕ) :
    .plain (.str n) ∉ slotted last ps ∧
      ∀ t ∈ slotted last ps, .str n ∈ t.content → t = .literal [.str n] := by
  constructor
  · intro h
    rcases mem_slotted h with ⟨c,hc⟩ | ⟨p,-,hp⟩
    · simp at hc
    · simp at hp
  · intro t ht hn
    rcases mem_slotted ht with ⟨c,rfl⟩ | ⟨p,-,rfl⟩
    · simp [Token.content] at hn
    · simp only [Token.content,List.mem_singleton] at hn
      rw [hn]

/-- The arguments are read back as they are exactly when they hold no quote. -/
theorem args_decoded_iff {st : Statement} {last : String} {ps : List (String × ℕ)}
    (ht : st.template = slotted last ps) :
    lex quote st.printed = st.template.flatMap (Token.subst (print st.args)) ↔
      ∀ p ∈ ps, quote ∉ print st.args (.str p.2) := by
  have hquote : print st.args (.char quote) = [quote] := rfl
  have hplain : ∀ s, .plain s ∈ st.template → print st.args s ≠ [] ∧ quote ∉ print st.args s := by
    intro s hs
    have hne := plain_ne hs
    rw [ht] at hs
    rcases mem_slotted hs with ⟨c,hc⟩ | ⟨p,-,hp⟩
    · cases hc
      simp only [print,List.mem_singleton]
      exact ⟨List.cons_ne_nil _ _,fun h => hne (h ▸ rfl)⟩
    · simp at hp
  rw [printed,sprintf,template,lex_flatMap_iff hquote hplain]
  rw [template] at ht
  rw [ht]
  constructor
  · intro h p hp
    exact h _ (slot_mem hp) (.str p.2) (List.mem_singleton.mpr rfl) (by simp)
  · intro h t hmem s hs _
    rcases mem_slotted hmem with ⟨c,rfl⟩ | ⟨p,hp,rfl⟩
    · simp [Token.content] at hs
    · simp only [Token.content,List.mem_singleton] at hs
      exact hs ▸ h p hp

/-- The statement has the template's tokens where it is in its buffer and decodes to its
arguments. -/
theorem reads_decoded_iff (st : Statement) :
    st.tokens = some (st.template.flatMap (Token.subst (print st.args))) ↔
      st.text = some st.printed ∧
        lex quote st.printed = st.template.flatMap (Token.subst (print st.args)) := by
  unfold tokens text
  split_ifs <;> simp

theorem fixed_subst (s : String) (args : List Arg) :
    (fixed s).flatMap (Token.subst (print args)) = s.toList.map .plain := by
  rw [fixed,List.flatMap_map,← List.flatMap_pure_eq_map]
  rfl

variable {selects}

theorem verifyUser_faithful
    (hselects : ∀ name r, selects (selectName name) r → r.name.toList = name) (name : CString) :
    Faithful selects (verifyUser name) ↔ quote ∉ name.val ∧ (verifyUser name).Fits := by
  have htemplate : (verifyUser name).template = _ := sqlSelectUser_template
  have hprint : print (verifyUser name).args (.str 0) = name.val := rfl
  have hdecoded := reads_decoded_iff (verifyUser name)
  rw [verifyUser_text,args_decoded_iff htemplate,List.forall_mem_singleton,hprint] at hdecoded
  constructor
  · intro h
    exact (hdecoded.mp h.decoded).symm
  · intro h
    have hd := hdecoded.mpr h.symm
    refine ⟨fun n => htemplate ▸ slotted_slots _ _ n,hd,fun name' heq ts hts r hr => ?_⟩
    cases heq
    have htokens : ts = selectName name.val := by
      rw [hd,Option.mem_some_iff] at hts
      rw [← hts,htemplate,slotted,slotted,List.flatMap_append,List.flatMap_cons,fixed_subst,
        fixed_subst,Token.subst,List.flatMap_singleton,hprint]
      rfl
    rw [htokens] at hr
    exact hselects name.val r hr

theorem updateUserLoginTime_faithful (ltm : Tm) (uname : CString) :
    Faithful selects (updateUserLoginTime ltm uname) ↔
      quote ∉ uname.val ∧ (updateUserLoginTime ltm uname).Fits := by
  have htemplate : (updateUserLoginTime ltm uname).template = _ := sqlUpdateUserLoginTm_template
  have hstm : print (updateUserLoginTime ltm uname).args (.str 0) = stamp ltm := rfl
  have huname : print (updateUserLoginTime ltm uname).args (.str 1) = uname.val := rfl
  have hclean : quote ∉ stamp ltm := not_mem_stamp (by decide) (by decide)
  have hdecoded := reads_decoded_iff (updateUserLoginTime ltm uname)
  rw [updateUserLoginTime_text,args_decoded_iff htemplate,List.forall_mem_cons,
    List.forall_mem_singleton,hstm,huname] at hdecoded
  constructor
  · intro h
    obtain ⟨hfits,-,hquote⟩ := hdecoded.mp h.decoded
    exact ⟨hquote,hfits⟩
  · intro h
    refine ⟨fun n => htemplate ▸ slotted_slots _ _ n,hdecoded.mpr ⟨h.2,hclean,h.1⟩,fun _ heq => ?_⟩
    cases heq

theorem updateUser_not_faithful (rec : CRecord) : ¬ Faithful selects (updateUser rec) := by
  intro h
  exact (h.slots 1).1 sqlUpdateUser_template

theorem shape_slotted (last : String) (ps : List (String × ℕ)) (args args' : List Arg) :
    ((slotted last ps).flatMap (Token.subst (print args))).map Token.shape =
      ((slotted last ps).flatMap (Token.subst (print args'))).map Token.shape := by
  rw [List.map_flatMap,List.map_flatMap]
  apply List.flatMap_congr
  intro t ht
  rcases mem_slotted ht with ⟨c,rfl⟩ | ⟨p,-,rfl⟩ <;> rfl

/-- The statements keep their tokens in exactly the cases without a quote in a user name for which
there is room, and then any two statements of one function have the same structure. -/
theorem faithful_iff_quoteless_fits
    (hselects : ∀ name r, selects (selectName name) r → r.name.toList = name) :
    (∀ st, Faithful selects st ↔ Quoteless st ∧ Fits st) ∧
      ∀ st st', st.format = st'.format → Quoteless st ∧ Fits st → Quoteless st' ∧ Fits st' →
        st.tokens.map (List.map Token.shape) = st'.tokens.map (List.map Token.shape) := by
  have hiff : ∀ st, Faithful selects st ↔ Quoteless st ∧ Fits st := by
    intro st
    cases st with
    | verifyUser name => exact verifyUser_faithful hselects name
    | updateUserLoginTime ltm uname => exact updateUserLoginTime_faithful ltm uname
    | updateUser rec => exact iff_of_false (updateUser_not_faithful rec) And.left
  refine ⟨hiff,fun st st' hformat hst hst' => ?_⟩
  have htemplate : st'.template = st.template := by rw [template,template,hformat]
  have hslotted : ∃ last ps, st.template = slotted last ps := by
    cases st with
    | verifyUser name => exact ⟨_,_,sqlSelectUser_template⟩
    | updateUserLoginTime ltm uname => exact ⟨_,_,sqlUpdateUserLoginTm_template⟩
    | updateUser rec => exact hst.1.elim
  obtain ⟨last,ps,hps⟩ := hslotted
  rw [((hiff st).mpr hst).decoded,((hiff st').mpr hst').decoded,htemplate,hps]
  exact congrArg some (shape_slotted last ps _ _)

end

/-- A meaning of statements that selects a row by its name and by nothing else. -/
def ByName (ts : List (Token Char)) (r : CRecord) : Prop := ts = selectName r.name.toList

theorem byName_selects (name : List Char) (r : CRecord) (h : ByName (selectName name) r) :
    r.name.toList = name := by
  have hcancel : ∀ (pre : List (Token Char)) (cs ds : List Char),
      pre ++ [.literal cs,.plain ';'] = pre ++ [.literal ds,.plain ';'] → ds = cs := by
    intro pre cs ds heq
    simpa [eq_comm] using heq
  exact hcancel _ _ _ h

theorem faithful_iff_quoteless_fits_byName :
    (∀ st, Faithful ByName st ↔ Quoteless st ∧ Fits st) ∧
      ∀ st st', st.format = st'.format → Quoteless st ∧ Fits st → Quoteless st' ∧ Fits st' →
        st.tokens.map (List.map Token.shape) = st'.tokens.map (List.map Token.shape) :=
  faithful_iff_quoteless_fits byName_selects

/-- A quote in the name closes the literal. -/
theorem quoted_name_not_faithful :
    (∀ name r, ByName (selectName name) r → r.name.toList = name) ∧
      ¬ Faithful ByName (verifyUser (c_str "o'neil")) := by
  refine ⟨byName_selects,?_⟩
  rw [verifyUser_faithful byName_selects]
  exact fun h => absurd h.1 (by decide)

end Statement
end CcniServer
