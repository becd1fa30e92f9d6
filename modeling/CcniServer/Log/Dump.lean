import CcniServer.Lib.Printed
import CcniServer.Threads.Event

/-!
The hexadecimal dumper of the log. It prints three characters for each byte and a line feed after
every sixteen into the text of one log item, and passes the room that is left to each call.
-/
namespace CcniServer.CLog
open Printed

def LOG_BUF_SIZE : ℕ := 1024

structure LOGITEM where
  txt : List UInt8
  length_txt : txt.length = LOG_BUF_SIZE

def hexDigit (d : ℕ) : UInt8 := UInt8.ofNat (if d < 10 then 48 + d else 55 + d)

/-- The format `"%02X "`. -/
def hex (b : UInt8) : List UInt8 := [hexDigit (b.toNat/16),hexDigit (b.toNat%16),32]

/-- The format `"\n"`. -/
def newline : List UInt8 := [10]

/-- The rounds of the loop before the index `i`. -/
def rounds (base : ℕ → UInt8) :
    ℕ → Buffer LOG_BUF_SIZE → Except (List Call) (Buffer LOG_BUF_SIZE)
  | 0, b => .ok b
  | i + 1, b => do
    let b ← rounds base i b
    let b ← snprintf b (hex (base i))
    if (i + 1) % 16 = 0 then snprintf b newline else .ok b

/-- What a call of `dumpbin` leaves: its calls of `snprintf`, its result and the queue. -/
structure Dumped where
  calls : List Call
  ret : ℤ
  queue : CCMsgQueue LOGITEM

/-- `base` is the memory behind `buf`, and `item` the new item with whatever its text holds. -/
def dumpbin (_logLevel : ℤ) (base : ℕ → UInt8) (len : ℕ) (item : LOGITEM)
    (_queue : CCMsgQueue LOGITEM) : Except (List Call) Dumped :=
  if _logLevel < 4 then .ok ⟨[],0,_queue⟩
  else do
    let b ← rounds base len ⟨item.txt,item.length_txt,0,[]⟩
    let b ← if len % 16 ≠ 0 then snprintf b newline else .ok b
    let (ok,_queue) := _queue.send ⟨b.mem,b.length_mem⟩
    .ok ⟨b.calls,if ok then b.offset else -1,_queue⟩

/-- The calls of `snprintf`, the one that writes outside the item included. -/
def calls : Except (List Call) Dumped → List Call
  | .ok d => d.calls
  | .error cs => cs

/-! ### The texts that are printed -/

/-- The texts of one round. -/
def roundTexts (base : ℕ → UInt8) (i : ℕ) : List (List UInt8) :=
  hex (base i) :: if (i + 1) % 16 = 0 then [newline] else []

/-- The texts of the rounds before the index `i`. -/
def loopTexts (base : ℕ → UInt8) : ℕ → List (List UInt8)
  | 0 => []
  | i + 1 => loopTexts base i ++ roundTexts base i

/-- The texts of a dump, one for each call. -/
def texts (base : ℕ → UInt8) (len : ℕ) : List (List UInt8) :=
  loopTexts base len ++ if len % 16 ≠ 0 then [newline] else []

/-- One line feed where it is due. -/
theorem exec_newline (c : Prop) [Decidable c] (b : Buffer LOG_BUF_SIZE) :
    Lts.exec snprintf b (if c then [newline] else []) =
      if c then snprintf b newline else .ok b := by
  split
  · rw [Lts.exec]
    cases snprintf b newline <;> rfl
  · rfl

theorem rounds_eq (base : ℕ → UInt8) (i : ℕ) (b : Buffer LOG_BUF_SIZE) :
    rounds base i b = Lts.exec snprintf b (loopTexts base i) := by
  induction i with
  | zero => rfl
  | succ i ih =>
    rw [rounds,loopTexts,Lts.exec_bind,ih]
    congr 1
    funext b
    rw [roundTexts,Lts.exec]
    cases snprintf b (hex (base i)) with
    | error cs => rfl
    | ok b' => exact (exec_newline _ b').symm

/-- The item before the first call. -/
def LOGITEM.buffer (item : LOGITEM) : Buffer LOG_BUF_SIZE := ⟨item.txt,item.length_txt,0,[]⟩

/-- Where it is logged, a dump prints its texts one after the other. -/
theorem dumpbin_eq {_logLevel : ℤ} (h : ¬ _logLevel < 4) (base : ℕ → UInt8) (len : ℕ)
    (item : LOGITEM) (_queue : CCMsgQueue LOGITEM) :
    dumpbin _logLevel base len item _queue =
      Lts.exec snprintf item.buffer (texts base len) >>= fun b =>
        .ok ⟨b.calls,b.offset,(_queue.send ⟨b.mem,b.length_mem⟩).2⟩ := by
  rw [dumpbin,if_neg h,rounds_eq,texts,Lts.exec_bind,bind_assoc]
  congr 1
  funext b
  rw [exec_newline]
  by_cases hrest : len % 16 ≠ 0
  · rw [if_pos hrest,if_pos hrest]
    rfl
  · rw [if_neg hrest,if_neg hrest]
    rfl

theorem length_loopTexts (base : ℕ → UInt8) (i : ℕ) :
    (loopTexts base i).flatten.length = 3*i + i/16 := by
  induction i with
  | zero => rfl
  | succ i ih =>
    rw [loopTexts,List.flatten_append,List.length_append,ih,roundTexts]
    by_cases h : (i + 1) % 16 = 0
    · rw [if_pos h]
      change _ + 4 = _
      omega
    · rw [if_neg h]
      change _ + 3 = _
      omega

/-- The last text of a dump is a line feed, and it starts behind all the bytes. -/
theorem texts_snoc (base : ℕ → UInt8) {len : ℕ} (hlen : len ≠ 0) :
    ∃ ts, texts base len = ts ++ [newline] ∧ ts.flatten.length = 3*len + (len - 1)/16 := by
  by_cases h : len % 16 = 0
  · obtain ⟨i,rfl⟩ := Nat.exists_eq_succ_of_ne_zero hlen
    refine ⟨loopTexts base i ++ [hex (base i)],?_,?_⟩
    · rw [texts,loopTexts,roundTexts,if_pos h,if_neg (not_not.mpr h),List.append_nil,
        List.append_assoc]
      rfl
    · rw [List.flatten_append,List.length_append,length_loopTexts]
      change _ + 3 = _
      omega
  · refine ⟨loopTexts base len,?_,?_⟩
    · rw [texts,if_pos h]
    · rw [length_loopTexts]
      omega

/-! ### The buffer -/

/-- The calls of a dump stay in the text of the item exactly when the last line feed still
starts in it. -/
theorem calls_dumpbin_iff {_logLevel : ℤ} (h : ¬ _logLevel < 4) (base : ℕ → UInt8) {len : ℕ}
    (hlen : len ≠ 0) (item : LOGITEM) (_queue : CCMsgQueue LOGITEM) :
    (∀ c ∈ calls (dumpbin _logLevel base len item _queue), c.InBuffer LOG_BUF_SIZE) ↔
      3*len + (len - 1)/16 < LOG_BUF_SIZE := by
  have hcalls : calls (dumpbin _logLevel base len item _queue) =
      Printed.calls (Lts.exec snprintf item.buffer (texts base len)) := by
    rw [dumpbin_eq h]
    cases Lts.exec snprintf item.buffer (texts base len) <;> rfl
  obtain ⟨ts,htexts,hsize⟩ := texts_snoc base hlen
  have hiff := @inBuffer_iff LOG_BUF_SIZE (by decide) item.buffer (le_refl 0) nofun ts newline
  rw [hcalls,htexts,hiff,hsize]
  change (0 : ℤ) + _ < _ ↔ _
  omega

/-- The dumper keeps to the text of its item exactly where nothing is logged or at most 334 bytes
are dumped, over every memory, every item and every queue. -/
theorem dumpbin_inBuffer_iff (_logLevel : ℤ) (base : ℕ → UInt8) (len : ℕ) (item : LOGITEM)
    (_queue : CCMsgQueue LOGITEM) :
    (∀ c ∈ calls (dumpbin _logLevel base len item _queue), c.InBuffer LOG_BUF_SIZE) ↔
      _logLevel < 4 ∨ len ≤ 334 := by
  by_cases hlevel : _logLevel < 4
  · rw [dumpbin,if_pos hlevel]
    exact ⟨fun _ => .inl hlevel,fun _ => nofun⟩
  · by_cases hlen : len = 0
    · rw [hlen,dumpbin,if_neg hlevel]
      exact ⟨fun _ => .inr (Nat.zero_le _),fun _ => nofun⟩
    · rw [calls_dumpbin_iff hlevel base hlen,LOG_BUF_SIZE]
      omega

/-- The line feed behind 335 bytes is printed behind the end of the item. -/
theorem dumpbin_overrun : ¬ ∀ c ∈ calls (dumpbin 5 (fun _ => 0) 335
    ⟨List.replicate 1024 0,List.length_replicate⟩ ⟨[]⟩), c.InBuffer LOG_BUF_SIZE := by
  rw [calls_dumpbin_iff (by decide) _ (by decide)]
  decide

/-! ### The result -/

theorem loopTexts_prefix (base : ℕ → UInt8) {i n : ℕ} (h : i ≤ n) :
    loopTexts base i <+: loopTexts base n := by
  induction n, h using Nat.le_induction with
  | base => exact List.prefix_rfl
  | succ n _ ih => exact ih.trans (List.prefix_append _ _)

/-- A dump of more than 334 bytes writes outside its item: the call behind the texts of 335 bytes
starts one byte behind the end. -/
theorem dumpbin_error {_logLevel : ℤ} (hlevel : ¬ _logLevel < 4) (base : ℕ → UInt8) {len : ℕ}
    (hlen : 334 < len) (item : LOGITEM) (_queue : CCMsgQueue LOGITEM) :
    ∃ cs, dumpbin _logLevel base len item _queue = .error cs := by
  have hsplit : ∃ t rest, texts base len = loopTexts base 335 ++ t :: rest := by
    rcases Nat.lt_or_ge 335 len with hlt | hge
    · obtain ⟨rest,hrest⟩ := loopTexts_prefix base (Nat.succ_le_of_lt hlt)
      refine ⟨hex (base 335),newline :: (rest ++ if len % 16 ≠ 0 then [newline] else []),?_⟩
      rw [texts,← hrest,loopTexts,List.append_assoc,List.append_assoc]
      rfl
    · have hall : len = 335 := by omega
      rw [hall]
      exact ⟨newline,[],rfl⟩
  obtain ⟨t,rest,htexts⟩ := hsplit
  have hstop : ∃ cs, Lts.exec snprintf item.buffer (texts base len) = .error cs := by
    rw [htexts,Lts.exec_bind]
    cases hloop : Lts.exec snprintf item.buffer (loopTexts base 335) with
    | error cs => exact ⟨cs,rfl⟩
    | ok b =>
      have hoffset : b.offset = 1025 := by
        rw [exec_offset hloop,length_loopTexts]
        rfl
      have hprint := @snprintf_error LOG_BUF_SIZE (by decide) b
        (by rw [hoffset]; decide) (by rw [hoffset]; decide) t
      refine ⟨b.calls ++ [b.call t],?_⟩
      change Lts.exec snprintf b (t :: rest) = _
      rw [Lts.exec,hprint]
  obtain ⟨cs,hcs⟩ := hstop
  rw [dumpbin_eq hlevel,hcs]
  exact ⟨cs,rfl⟩

/-- A dump that keeps to its item sends the whole text, with a zero behind it, and returns its
length. Without bytes there is no call, and the item is sent as it was allocated. -/
theorem dumpbin_text {_logLevel : ℤ} (hlevel : ¬ _logLevel < 4) (base : ℕ → UInt8) {len : ℕ}
    (hlen : len ≠ 0) (hle : len ≤ 334) (item : LOGITEM) (_queue : CCMsgQueue LOGITEM) :
    ∃ d sent, dumpbin _logLevel base len item _queue = .ok d ∧
      d.ret = (texts base len).flatten.length ∧ d.queue.data = _queue.data ++ [sent] ∧
      (texts base len).flatten ++ [0] <+: sent.txt := by
  obtain ⟨ts,htexts,hsize⟩ := texts_snoc base hlen
  have hstart : item.buffer.Front [] := ⟨rfl,List.nil_prefix⟩
  obtain ⟨b,hloop,hfront⟩ := @exec_front LOG_BUF_SIZE (by decide) _ _ hstart ts
    (by rw [hsize,LOG_BUF_SIZE,List.length_nil]; omega)
  obtain ⟨b',hprint,hfront',hzero⟩ := @snprintf_front LOG_BUF_SIZE (by decide) _ _ hfront newline
    (by rw [List.nil_append,hsize,LOG_BUF_SIZE,newline,List.length_singleton]; omega)
  have hflat : (texts base len).flatten = [] ++ ts.flatten ++ newline := by
    rw [htexts,List.flatten_append,List.nil_append]
    rfl
  have hrun : Lts.exec snprintf item.buffer (texts base len) = .ok b' := by
    rw [htexts,Lts.exec_append hloop,Lts.exec,hprint]
    rfl
  rw [dumpbin_eq hlevel,hrun,hflat]
  exact ⟨_,⟨b'.mem,b'.length_mem⟩,rfl,hfront'.offset,rfl,hzero⟩

end CcniServer.CLog
