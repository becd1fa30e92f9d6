import CcniServer.Log.Dump
import CcniServer.Db.Statements

/-!
The loggers and what they send to the queue that all of them share. `print` puts a stamp in front
of its text and cuts both to one item; the item keeps the day that it was stamped with.
-/
namespace CcniServer

namespace CLog
open Printed

inductive LOGTYPE
  | DEBUG_LOG
  | EVENT_LOG
  deriving DecidableEq

inductive LOGFILE_CFG
  | NO_SPLIT
  | SPLIT_ON_DATE
  | SPLIT_ON_SIZE
  deriving DecidableEq

/-- The fields of `struct tm` that tell the days apart. -/
structure Date where
  tm_year : Int32
  tm_mon : Int32
  tm_mday : Int32
  deriving DecidableEq

/-- The year and the month that are printed are numbers of type `int`. -/
def Date.Prints (t : Date) : Prop := t.tm_year.toInt + 1900 < 2^31 ∧ t.tm_mon.toInt + 1 < 2^31

instance (t : Date) : Decidable t.Prints := inferInstanceAs (Decidable (_ ∧ _))

/-- A text printed behind the end of its buffer, an `int` that overflows, and an item without a
zero where it is read as a string. -/
inductive Undefined
  | overrun
  | overflow
  | unterminated
  deriving DecidableEq

theorem Undefined.bind_eq_ok {α β : Type} {x : Except Undefined α} {f : α → Except Undefined β}
    {b : β} : x >>= f = .ok b ↔ ∃ a, x = .ok a ∧ f a = .ok b := by
  cases x with
  | error u => simp [Bind.bind,Except.bind]
  | ok a => simp [Bind.bind,Except.bind]

/-- An open file: its name, and what `ftell` answers. -/
structure FILE where
  name : List UInt8
  pos : ℕ
  deriving DecidableEq

/-- An item with its logger and its day. -/
structure Item extends LOGITEM where
  logger : ℕ
  logtime : Date

end CLog

open CLog in
/-- A logger. The constructor replaces a size that is not positive, and the number of the next
file, which counts up from zero, is of type `int`. -/
structure CLog where
  _fname : List UInt8
  _fnumber : ℕ
  fnumber_lt : _fnumber < 2^31
  _lpolicy : LOGFILE_CFG
  _fsize : ℕ
  fsize_pos : 0 < _fsize
  _logfp : Option FILE
  _curftime : Date
  _type : LOGTYPE
  _logLevel : ℤ

namespace CLog
open Printed

def DEFAULT_FSIZE : ℕ := 100*1024

def sizeOr (fsize : ℤ) : ℕ := if fsize ≤ 0 then DEFAULT_FSIZE else fsize.toNat

theorem sizeOr_pos (fsize : ℤ) : 0 < sizeOr fsize := by
  unfold sizeOr
  split_ifs
  · decide
  · omega

/-- The constructor. `_curftime` holds whatever was there. -/
def new (fname : List UInt8) (type : LOGTYPE) (policy : LOGFILE_CFG) (fsize : ℤ)
    (_logLevel : ℤ) (_curftime : Date) : CLog where
  _fname := fname
  _fnumber := 0
  fnumber_lt := by decide
  _lpolicy := policy
  _fsize := sizeOr fsize
  fsize_pos := sizeOr_pos fsize
  _logfp := none
  _curftime := _curftime
  _type := type
  _logLevel := _logLevel

/-! ### The texts -/

/-- The bytes of ASCII characters. -/
def bytes (cs : List Char) : List UInt8 := cs.map (fun c => UInt8.ofNat c.toNat)

/-- The conversion `%0wd`. -/
def num (w : ℕ) (n : ℤ) : List UInt8 := bytes (padded w n)

/-- What a macro passes to `print`, with the thread that calls it. -/
structure Place where
  level : ℤ
  file : List UInt8
  function : List UInt8
  line : ℤ
  self : ℕ

/-- What `gettimeofday` answers and what `localtime_r` makes of it. -/
structure Moment where
  tm : Timeval
  local_tm : Tm

def Moment.date (now : Moment) : Date :=
  ⟨now.local_tm.tm_year,now.local_tm.tm_mon,now.local_tm.tm_mday⟩

/-- The format `"[%s][%s][%d][%06lu][%06ld:%06ld][%d] "`. -/
def debugStamp (p : Place) (now : Moment) : List UInt8 :=
  bytes ['['] ++ p.file ++ bytes [']','['] ++ p.function ++ bytes [']','['] ++ num 0 p.line ++
    bytes [']','['] ++ num 6 p.self ++ bytes [']','['] ++ num 6 now.tm.tv_sec ++ bytes [':'] ++
    num 6 now.tm.tv_usec ++ bytes [']','['] ++ num 0 p.level ++ bytes [']',' ']

/-- The format `"%04d-%02d-%02d %02d:%02d:%02d:%03d  "`. -/
def eventStamp (now : Moment) : List UInt8 :=
  num 4 (now.local_tm.tm_year.toInt + 1900) ++ bytes ['-'] ++
    num 2 (now.local_tm.tm_mon.toInt + 1) ++ bytes ['-'] ++ num 2 now.local_tm.tm_mday.toInt ++
    bytes [' '] ++ num 2 now.local_tm.tm_hour.toInt ++ bytes [':'] ++
    num 2 now.local_tm.tm_min.toInt ++ bytes [':'] ++ num 2 now.local_tm.tm_sec.toInt ++
    bytes [':'] ++ num 3 (now.tm.tv_usec.tdiv 1000) ++ bytes [' ',' ']

/-- The text of the item as a C string. -/
def LOGITEM.str (item : LOGITEM) : List UInt8 := item.txt.takeWhile (· ≠ 0)

/-- What both functions do once they have their stamp: `sprintf` prints it without a bound,
`vsnprintf` the text behind it. -/
def compose (l : ℕ) (date : Date) (stamp text : List UInt8) (item : LOGITEM)
    (_queue : CCMsgQueue Item) : Except Undefined (ℤ × CCMsgQueue Item) :=
  if stamp.length < LOG_BUF_SIZE then
    match snprintf item.buffer stamp >>= (snprintf · text) with
    | .error _ => .error .overrun
    | .ok b =>
      let (ok,_queue) := _queue.send ⟨⟨b.mem,b.length_mem⟩,l,date⟩
      .ok (if ok then text.length else -1,_queue)
  else .error .overrun

/-- `print` without a level. -/
def printEvent (l : ℕ) (now : Moment) (text : List UInt8) (item : LOGITEM)
    (_queue : CCMsgQueue Item) : Except Undefined (ℤ × CCMsgQueue Item) :=
  if now.date.Prints then compose l now.date (eventStamp now) text item _queue
  else .error .overflow

/-- `print` with a level; `text` is its formatted text. An event log gets what `print` without a
level makes. -/
def print (log : CLog) (l : ℕ) (p : Place) (now : Moment) (text : List UInt8) (item : LOGITEM)
    (_queue : CCMsgQueue Item) : Except Undefined (ℤ × CCMsgQueue Item) :=
  if p.level > log._logLevel then .ok (0,_queue)
  else if log._type = .DEBUG_LOG then
    compose l now.date (debugStamp p now) text item _queue
  else printEvent l now text item _queue

/-- `dumpbin` does not set the day of its item, which is whatever `new` found there. -/
def dump (log : CLog) (l : ℕ) (base : ℕ → UInt8) (len : ℕ) (item : Item)
    (_queue : CCMsgQueue Item) : Except Undefined (ℤ × CCMsgQueue Item) :=
  match dumpbin log._logLevel base len item.toLOGITEM ⟨[]⟩ with
  | .error _ => .error .overrun
  | .ok d => .ok (d.ret,⟨_queue.data ++ d.queue.data.map (⟨·,l,item.logtime⟩)⟩)

/-! ### What an item holds -/

theorem takeWhile_zero (xs ys : List UInt8) :
    (xs ++ 0 :: ys).takeWhile (· ≠ 0) = xs.takeWhile (· ≠ 0) := by
  induction xs with
  | nil => rfl
  | cons x xs ih =>
    by_cases hx : x = 0
    · simp [hx]
    · simpa [hx] using ih

/-- A stamp that fits is sent with as much of the text as leaves room for a zero. -/
theorem compose_eq {stamp : List UInt8} (h : stamp.length < LOG_BUF_SIZE) (l : ℕ) (date : Date)
    (text : List UInt8) (item : LOGITEM) (_queue : CCMsgQueue Item) :
    ∃ sent : Item, compose l date stamp text item _queue =
        .ok ((text.length : ℤ),⟨_queue.data ++ [sent]⟩) ∧ sent.logger = l ∧ sent.logtime = date ∧
      0 ∈ sent.txt ∧
      sent.str = ((stamp ++ text).take (LOG_BUF_SIZE - 1)).takeWhile (· ≠ 0) := by
  have hcap : LOG_BUF_SIZE < 2^64 := by decide
  obtain ⟨b,hfirst,hfront,-⟩ := @snprintf_front _ hcap item.buffer [] ⟨rfl,List.nil_prefix⟩ stamp
    (by rwa [List.length_nil,Nat.zero_add])
  have hoffset := hfront.offset
  rw [List.nil_append] at hoffset
  have hlt : b.offset < (LOG_BUF_SIZE : ℤ) := by omega
  obtain ⟨b',hsecond,-,hmem,-⟩ := @snprintf_ok _ hcap b (by omega) hlt text
  have hsize : (b.call text).size = LOG_BUF_SIZE - stamp.length := by
    have hroom : ((b.call text).size : ℤ) = LOG_BUF_SIZE - b.offset :=
      (@call_inBuffer _ hcap b (by omega) hlt text).size
    omega
  have hwritten : (b.call text).written = text.take (LOG_BUF_SIZE - 1 - stamp.length) ++ [0] := by
    rw [Call.written,if_neg (by omega),hsize,Nat.sub_right_comm]
    rfl
  have htake : b.mem.take stamp.length = stamp := (List.prefix_iff_eq_take.mp hfront.front).symm
  obtain ⟨rest,hrest⟩ : ∃ rest,
      b'.mem = (stamp ++ text).take (LOG_BUF_SIZE - 1) ++ 0 :: rest := by
    refine ⟨b.mem.drop (stamp.length + (b.call text).written.length),?_⟩
    rw [hmem,hoffset,Int.toNat_natCast,Bytes.write,htake,hwritten,List.take_append,
      List.take_of_length_le (by omega : stamp.length ≤ LOG_BUF_SIZE - 1)]
    simp only [List.append_assoc,List.singleton_append]
  refine ⟨⟨⟨b'.mem,b'.length_mem⟩,l,date⟩,?_,rfl,rfl,?_,?_⟩
  · have hboth : (snprintf item.buffer stamp >>= (snprintf · text)) = .ok b' := by
      rw [hfirst]
      exact hsecond
    rw [compose,if_pos h,hboth]
    rfl
  · change 0 ∈ b'.mem
    rw [hrest]
    simp
  · change b'.mem.takeWhile (· ≠ 0) = _
    rw [hrest,takeWhile_zero]

theorem ne_zero_of_hexDigit {d : ℕ} (h : d < 16) : hexDigit d ≠ 0 := by
  revert d
  decide

theorem zero_notMem_texts (base : ℕ → UInt8) (len : ℕ) : 0 ∉ (texts base len).flatten := by
  have hhex : ∀ b : UInt8, 0 ∉ hex b := by
    intro b hb
    have hlt : b.toNat < 256 := b.toNat_lt
    simp only [hex,List.mem_cons,List.not_mem_nil,or_false] at hb
    rcases hb with hb | hb | hb
    · exact ne_zero_of_hexDigit (by omega) hb.symm
    · exact ne_zero_of_hexDigit (by omega) hb.symm
    · exact absurd hb (by decide)
  have hline : (0 : UInt8) ∉ newline := by decide
  have hloop : ∀ i, 0 ∉ (loopTexts base i).flatten := by
    intro i
    induction i with
    | zero => simp [loopTexts]
    | succ i ih =>
      rw [loopTexts,List.flatten_append,List.mem_append,roundTexts]
      rintro (h | h)
      · exact ih h
      · rw [List.flatten_cons,List.mem_append] at h
        rcases h with h | h
        · exact hhex _ h
        · split_ifs at h
          · simp [hline] at h
          · simp at h
  rw [texts,List.flatten_append,List.mem_append]
  rintro (h | h)
  · exact hloop len h
  · split_ifs at h
    · simp [hline] at h
    · simp at h

/-- A dump that is not logged sends nothing. -/
theorem dump_low {log : CLog} (h : log._logLevel < 4) (l : ℕ) (base : ℕ → UInt8) (len : ℕ)
    (item : Item) (_queue : CCMsgQueue Item) :
    dump log l base len item _queue = .ok (0,_queue) := by
  rw [dump,dumpbin,if_pos h]
  simp

/-- A dump of up to 334 bytes sends their text. -/
theorem dump_eq {log : CLog} (h : ¬ log._logLevel < 4) (l : ℕ) (base : ℕ → UInt8) {len : ℕ}
    (hlen : len ≠ 0) (hle : len ≤ 334) (item : Item) (_queue : CCMsgQueue Item) :
    ∃ sent : Item, dump log l base len item _queue =
        .ok (((texts base len).flatten.length : ℤ),⟨_queue.data ++ [sent]⟩) ∧ sent.logger = l ∧
      sent.logtime = item.logtime ∧ 0 ∈ sent.txt ∧ sent.str = (texts base len).flatten := by
  obtain ⟨d,sent,hd,hret,hqueue,rest,hrest⟩ :=
    dumpbin_text h base hlen hle item.toLOGITEM ⟨[]⟩
  refine ⟨⟨sent,l,item.logtime⟩,?_,rfl,rfl,?_,?_⟩
  · rw [dump,hd]
    simp [hret,hqueue]
  · change 0 ∈ sent.txt
    rw [← hrest]
    simp
  · change sent.txt.takeWhile (· ≠ 0) = _
    rw [← hrest,List.append_assoc,List.singleton_append,takeWhile_zero]
    refine List.takeWhile_eq_self_iff.mpr fun b hb => ?_
    have hne : b ≠ 0 := fun h0 => zero_notMem_texts base len (h0 ▸ hb)
    simpa using hne

/-- A dump of no bytes sends its item as it was allocated. -/
theorem dump_empty {log : CLog} (h : ¬ log._logLevel < 4) (l : ℕ) (base : ℕ → UInt8) (item : Item)
    (_queue : CCMsgQueue Item) : dump log l base 0 item _queue =
      .ok (0,⟨_queue.data ++ [⟨item.toLOGITEM,l,item.logtime⟩]⟩) := by
  rw [dump,dumpbin_eq h]
  rfl

end CLog
end CcniServer
