import CcniServer.Log.Files

/-!
The log as a whole: any threads that print, the queue between them and the log thread, and the
files. Nothing is lost on the way, doubled or overtaken; what a file that cannot be opened or a
write that fails loses is lost in `update`, and only there.
-/
namespace CcniServer
namespace CLog
open Lts

/-- The loggers and their queue, the item that the log thread has received, and the files. -/
structure Logs where
  log : ℕ → CLog
  _queue : CCMsgQueue Item
  item : Option Item
  disk : Disk

/-- A call in some thread, with the item that `new` gives it, or a turn of the log thread. -/
inductive Event
  | print (l : ℕ) (p : Place) (now : Moment) (text : List UInt8) (item : LOGITEM)
  | printEvent (l : ℕ) (now : Moment) (text : List UInt8) (item : LOGITEM)
  | dump (l : ℕ) (base : ℕ → UInt8) (len : ℕ) (item : Item)
  | thread_func (w : World)

namespace Logs

def sent (s : Logs) (res : Except Undefined (ℤ × CCMsgQueue Item)) : Except Undefined Logs :=
  res.map fun res => { s with _queue := res.2 }

/-- The loop of `thread_func`: `receive`, which waits while the queue is empty, and `update`. -/
def turn (s : Logs) (w : World) : Except Undefined Logs :=
  match s.item with
  | none =>
    match s._queue.data with
    | [] => .ok s
    | item :: data => .ok { s with item := some item, _queue := ⟨data⟩ }
  | some item =>
    if 0 ∈ item.txt then do
      let (log,disk) ← (s.log item.logger).update w item s.disk
      return { s with log := Function.update s.log item.logger log, item := none, disk := disk }
    else .error .unterminated

def step (s : Logs) : Event → Except Undefined Logs
  | .print l p now text item => s.sent ((s.log l).print l p now text item s._queue)
  | .printEvent l now text item => s.sent (CLog.printEvent l now text item s._queue)
  | .dump l base len item => s.sent ((s.log l).dump l base len item s._queue)
  | .thread_func w => s.turn w

end Logs

/-! ### What is asked and what is done -/

/-- A record as the callers mean it. -/
structure Entry where
  logger : ℕ
  logtime : Date
  text : List UInt8
  deriving DecidableEq

def Item.entry (item : Item) : Entry := ⟨item.logger,item.logtime,item.str⟩

/-- What an item keeps of a text: all of it up to a zero, or as much as there is room for. -/
def cut (text : List UInt8) : List UInt8 := (text.take (LOG_BUF_SIZE - 1)).takeWhile (· ≠ 0)

def stampOf (type : LOGTYPE) (p : Place) (now : Moment) : List UInt8 :=
  if type = .DEBUG_LOG then debugStamp p now else eventStamp now

/-- The record that a call asks for, nothing where its level is not logged. -/
def asked (s : Logs) : Event → Option Entry
  | .print l p now text _ =>
    if p.level > (s.log l)._logLevel then none
    else some ⟨l,now.date,cut (stampOf (s.log l)._type p now ++ text)⟩
  | .printEvent l now text _ => some ⟨l,now.date,cut (eventStamp now ++ text)⟩
  | .dump l base len item =>
    if (s.log l)._logLevel < 4 then none
    else some ⟨l,item.logtime,if len = 0 then item.str else (texts base len).flatten⟩
  | .thread_func _ => none

/-- A record that the log thread is done with, its file with the end of it, none where that could
not be opened, and what the file took of the record. -/
structure Done where
  entry : Entry
  file : Option FILE
  written : List UInt8
  written_prefix : written <+: entry.text
  deriving DecidableEq

def Item.done (item : Item) (w : World) (log : CLog) : Done where
  entry := item.entry
  file := log._logfp
  written := item.str.take w.fwrite
  written_prefix := List.take_prefix ..

def done (s : Logs) : Event → Option Done
  | .thread_func w => s.item.bind fun item =>
    if 0 ∈ item.txt then
      match (s.log item.logger).update w item s.disk with
      | .ok (log,_) => some (item.done w log)
      | .error _ => none
    else none
  | .print .. => none
  | .printEvent .. => none
  | .dump .. => none

/-- What was written of the record is at the end of its file. -/
def Done.put (disk : Disk) (d : Done) : Disk :=
  match d.file with
  | none => disk
  | some fp => Function.update disk fp.name (disk fp.name ++ d.written)

def Done.In (name : List UInt8) (d : Done) : Prop := d.file.map FILE.name = some name

instance (name : List UInt8) (d : Done) : Decidable (d.In name) :=
  inferInstanceAs (Decidable (_ = _))

/-- What has been sent and is not done yet. -/
def Logs.pending (s : Logs) : List Entry := (s.item.toList ++ s._queue.data).map Item.entry

/-- The turns that the log thread needs for it. -/
def Logs.work (s : Logs) : ℕ := 2*s._queue.data.length + s.item.toList.length

/-- The call keeps to its item, and the turn to the names of its files and their numbers. -/
def Keeps (s : Logs) : Event → Prop
  | .print l p now _ _ => p.level ≤ (s.log l)._logLevel →
      (stampOf (s.log l)._type p now).length < LOG_BUF_SIZE ∧
        ((s.log l)._type ≠ .DEBUG_LOG → now.date.Prints)
  | .printEvent _ now _ _ => (eventStamp now).length < LOG_BUF_SIZE ∧ now.date.Prints
  | .dump l _ len item => 4 ≤ (s.log l)._logLevel → len ≤ 334 ∧ (len = 0 → 0 ∈ item.txt)
  | .thread_func w => ∀ item, s.item = some item → (s.log item.logger).Fits w item.logtime

instance (s : Logs) : ∀ e, Decidable (Keeps s e)
  | .print .. => inferInstanceAs (Decidable (_ → _ ∧ _))
  | .printEvent .. => inferInstanceAs (Decidable (_ ∧ _))
  | .dump .. => inferInstanceAs (Decidable (_ → _ ∧ _))
  | .thread_func _ => inferInstanceAs (Decidable (∀ item ∈ s.item, _))

/-! ### Steps -/

section
variable {s t : Logs}

/-- A step leaves loggers and files alone, or writes one item. -/
theorem step_cases {e : Event} (h : s.step e = .ok t) :
    (t.log = s.log ∧ t.disk = s.disk ∧ done s e = none) ∨
      ∃ w item log, e = .thread_func w ∧ s.item = some item ∧
        (s.log item.logger).update w item s.disk = .ok (log,t.disk) ∧
        t.log = Function.update s.log item.logger log ∧
        done s e = some (item.done w log) := by
  have hcall : ∀ q, s.sent q = .ok t → t.log = s.log ∧ t.disk = s.disk := by
    intro q hq
    cases q with
    | error u => cases hq
    | ok q =>
      cases hq
      exact ⟨rfl,rfl⟩
  cases e with
  | print l p now text item =>
    obtain ⟨hlog,hdisk⟩ := hcall ((s.log l).print l p now text item s._queue) h
    exact .inl ⟨hlog,hdisk,rfl⟩
  | printEvent l now text item =>
    obtain ⟨hlog,hdisk⟩ := hcall (CLog.printEvent l now text item s._queue) h
    exact .inl ⟨hlog,hdisk,rfl⟩
  | dump l base len item =>
    obtain ⟨hlog,hdisk⟩ := hcall ((s.log l).dump l base len item s._queue) h
    exact .inl ⟨hlog,hdisk,rfl⟩
  | thread_func w =>
    change s.turn w = .ok t at h
    unfold Logs.turn at h
    cases hitem : s.item with
    | none =>
      rw [hitem] at h
      dsimp only at h
      refine .inl ?_
      rw [done,hitem]
      split at h <;> cases h <;> exact ⟨rfl,rfl,rfl⟩
    | some item =>
      rw [hitem] at h
      dsimp only at h
      split_ifs at h with hzero
      obtain ⟨⟨log,disk⟩,hupdate,h⟩ := Undefined.bind_eq_ok.mp h
      cases h
      refine .inr ⟨w,item,log,rfl,rfl,hupdate,rfl,?_⟩
      rw [done,hitem,Option.bind_some,if_pos hzero,hupdate]

/-- A step that is undefined does not write. -/
theorem done_of_error {e : Event} {u : Undefined} (h : s.step e = .error u) : done s e = none := by
  cases e with
  | thread_func w =>
    change s.turn w = .error u at h
    unfold Logs.turn at h
    rw [done]
    cases hitem : s.item with
    | none => rfl
    | some item =>
      rw [hitem] at h
      dsimp only at h
      rw [Option.bind_some]
      split_ifs at h ⊢
      · cases hupdate : (s.log item.logger).update w item s.disk with
        | error u => rfl
        | ok r =>
          rw [hupdate] at h
          cases h
      · rfl
  | _ => rfl

theorem named_step (hs : ∀ l, (s.log l).Named) {e : Event} (h : s.step e = .ok t) (l : ℕ) :
    (t.log l).Named := by
  obtain ⟨hlog,-,-⟩ | ⟨w,item,log,-,-,hupdate,hlog,-⟩ := step_cases h
  · rw [hlog]
    exact hs l
  · rw [hlog]
    by_cases hl : l = item.logger
    · subst hl
      rw [Function.update_self]
      exact (update_spec (hs item.logger) hupdate).named
    · rw [Function.update_of_ne hl]
      exact hs l

theorem disk_step (hs : ∀ l, (s.log l).Named) {e : Event} (h : s.step e = .ok t) :
    t.disk = (done s e).toList.foldl Done.put s.disk := by
  obtain ⟨-,hdisk,hdone⟩ | ⟨w,item,log,-,-,hupdate,-,hdone⟩ := step_cases h
  · rw [hdone]
    exact hdisk
  · have hspec := update_spec (hs item.logger) hupdate
    rw [hdone]
    dsimp only [Option.toList_some,List.foldl_cons,List.foldl_nil,Done.put,Item.done]
    cases hfile : log._logfp with
    | none => exact hspec.lost hfile
    | some fp => exact (hspec.kept fp hfile).2.1

/-- The files are the ones that the loggers tell, and every item ends. -/
structure Logs.Inv (s : Logs) : Prop where
  named : ∀ l, (s.log l).Named
  ends : ∀ item ∈ s.item.toList ++ s._queue.data, 0 ∈ item.txt

/-- A call that sends one item, or none. -/
theorem keeps_sent (hs : s.Inv) {e : Event} (hdone : done s e = none)
    {q : Except Undefined (ℤ × CCMsgQueue Item)} (hstep : s.step e = s.sent q)
    (h : (asked s e = none ∧ ∃ n, q = .ok (n,s._queue)) ∨
      ∃ n, ∃ item : Item, asked s e = some item.entry ∧ 0 ∈ item.txt ∧
        q = .ok (n,⟨s._queue.data ++ [item]⟩)) :
    ∃ t, s.step e = .ok t ∧ t.Inv ∧
      s.pending ++ (asked s e).toList = (done s e).toList.map Done.entry ++ t.pending := by
  obtain ⟨hasked,n,rfl⟩ | ⟨n,item,hasked,hzero,rfl⟩ := h
  · refine ⟨s,hstep,hs,?_⟩
    rw [hasked,hdone]
    simp
  · refine ⟨_,hstep,⟨hs.named,fun item' hitem' => ?_⟩,?_⟩
    · change item' ∈ s.item.toList ++ (s._queue.data ++ [item]) at hitem'
      rw [← List.append_assoc,List.mem_append,List.mem_singleton] at hitem'
      obtain hold | rfl := hitem'
      · exact hs.ends item' hold
      · exact hzero
    · rw [hasked,hdone]
      simp [Logs.pending]

theorem keeps_turn (hs : s.Inv) {w : World} (hw : Keeps s (.thread_func w)) :
    ∃ t, s.step (.thread_func w) = .ok t ∧ t.Inv ∧ t.work = s.work - 1 ∧
      s.pending = (done s (.thread_func w)).toList.map Done.entry ++ t.pending := by
  have hturn : s.step (.thread_func w) = s.turn w := rfl
  cases hitem : s.item with
  | none =>
    have hdone : done s (.thread_func w) = none := by rw [done,hitem]; rfl
    cases hdata : s._queue.data with
    | nil =>
      refine ⟨s,by rw [hturn,Logs.turn,hitem,hdata],hs,?_,by rw [hdone]; rfl⟩
      simp [Logs.work,hitem,hdata]
    | cons item data =>
      refine ⟨{ s with item := some item, _queue := ⟨data⟩ },by rw [hturn,Logs.turn,hitem,hdata],
        ⟨hs.named,fun item' hitem' => hs.ends item' ?_⟩,?_,?_⟩
      · rw [hitem,hdata]
        exact hitem'
      · simp only [Logs.work,hitem,hdata,List.length_cons,Option.toList_some,Option.toList_none,
          List.length_nil]
        omega
      · rw [hdone]
        simp [Logs.pending,hitem,hdata]
  | some item =>
    have hzero : 0 ∈ item.txt := hs.ends item (by rw [hitem]; simp)
    obtain ⟨log,disk,hupdate⟩ := update_ok (hw item hitem) s.disk
    have hdone : done s (.thread_func w) = some (item.done w log) := by
      rw [done,hitem,Option.bind_some,if_pos hzero,hupdate]
    have hstep : s.step (.thread_func w) =
        .ok ⟨Function.update s.log item.logger log,s._queue,none,disk⟩ := by
      rw [hturn,Logs.turn,hitem]
      dsimp only
      rw [if_pos hzero,hupdate]
      rfl
    refine ⟨_,hstep,⟨named_step hs.named hstep,fun item' hitem' => ?_⟩,?_,?_⟩
    · exact hs.ends item' (List.mem_append_right _ hitem')
    · simp [Logs.work,hitem]
    · rw [hdone]
      simp [Logs.pending,Item.done,hitem]

/-- A call that keeps to its item sends what it was asked, and the log thread writes it. -/
theorem keeps_step (hs : s.Inv) {e : Event} (he : Keeps s e) :
    ∃ t, s.step e = .ok t ∧ t.Inv ∧
      s.pending ++ (asked s e).toList = (done s e).toList.map Done.entry ++ t.pending := by
  cases e with
  | print l p now text item =>
    refine @keeps_sent s hs _ rfl ((s.log l).print l p now text item s._queue) rfl ?_
    by_cases hlevel : p.level > (s.log l)._logLevel
    · exact .inl ⟨if_pos hlevel,0,if_pos hlevel⟩
    · obtain ⟨hfit,hprints⟩ := he (not_lt.mp hlevel)
      obtain ⟨item',heq,hlogger,hdate,hzero,hstr⟩ :=
        compose_eq hfit l now.date text item s._queue
      refine .inr ⟨text.length,item',?_,hzero,?_⟩
      · rw [asked,if_neg hlevel,Item.entry,hlogger,hdate,hstr,cut]
      · rw [← heq,print,if_neg hlevel,stampOf]
        split_ifs with htype
        · rfl
        · rw [printEvent,if_pos (hprints htype)]
  | printEvent l now text item =>
    obtain ⟨item',heq,hlogger,hdate,hzero,hstr⟩ := compose_eq he.1 l now.date text item s._queue
    refine @keeps_sent s hs _ rfl (CLog.printEvent l now text item s._queue) rfl
      (.inr ⟨_,item',?_,hzero,by rw [printEvent,if_pos he.2,heq]⟩)
    rw [asked,Item.entry,hlogger,hdate,hstr,cut]
  | dump l base len item =>
    refine @keeps_sent s hs _ rfl ((s.log l).dump l base len item s._queue) rfl ?_
    by_cases hlevel : (s.log l)._logLevel < 4
    · exact .inl ⟨if_pos hlevel,0,dump_low hlevel l base len item s._queue⟩
    · obtain ⟨hle,hempty⟩ := he (not_lt.mp hlevel)
      by_cases hlen : len = 0
      · subst hlen
        refine .inr ⟨0,⟨item.toLOGITEM,l,item.logtime⟩,?_,hempty rfl,
          dump_empty hlevel l base item s._queue⟩
        rw [asked,if_neg hlevel,if_pos rfl]
        rfl
      · obtain ⟨item',heq,hlogger,hdate,hzero,hstr⟩ :=
          dump_eq hlevel l base hlen hle item s._queue
        refine .inr ⟨_,item',?_,hzero,heq⟩
        rw [asked,if_neg hlevel,if_neg hlen,Item.entry,hlogger,hdate,hstr]
  | thread_func w =>
    obtain ⟨t,ht,hinv,-,horder⟩ := keeps_turn hs he
    exact ⟨t,ht,hinv,by rw [asked,Option.toList_none,List.append_nil,horder]⟩

/-! ### Runs -/

/-- A run of calls that keep to their items ends, with every record asked for done or pending. -/
theorem run_keeps (hs : s.Inv) {es : List Event} (hm : Meets (Steps Logs.step) Keeps s es) :
    ∃ t, exec Logs.step s es = .ok t ∧ t.Inv ∧
      s.pending ++ trail Logs.step asked s es =
        (trail Logs.step done s es).map Done.entry ++ t.pending ∧
      t.disk = (trail Logs.step done s es).foldl Done.put s.disk := by
  induction es generalizing s with
  | nil => exact ⟨s,rfl,hs,by simp [trail],rfl⟩
  | cons e es ih =>
    obtain ⟨u,hu,huinv,huorder⟩ := keeps_step hs hm.1
    obtain ⟨t,ht,hinv,horder,hdisk⟩ := ih huinv (hm.2 u hu)
    refine ⟨t,by rwa [exec_cons_ok hu],hinv,?_,?_⟩
    · rw [trail_cons_ok hu,trail_cons_ok hu,← List.append_assoc,huorder,List.append_assoc,
        horder,List.map_append,List.append_assoc]
    · rw [trail_cons_ok hu,List.foldl_append,← disk_step hs.named hu,hdisk]

theorem run_drains (hs : s.Inv) {ws : List World} (h : s.work ≤ ws.length)
    (hm : Meets (Steps Logs.step) Keeps s (ws.map .thread_func)) :
    ∃ t, exec Logs.step s (ws.map .thread_func) = .ok t ∧ t.pending = [] := by
  have hrun : ∃ t, exec Logs.step s (ws.map .thread_func) = .ok t ∧ t.work = 0 := by
    induction ws generalizing s with
    | nil => exact ⟨s,rfl,Nat.le_zero.mp h⟩
    | cons w ws ih =>
      obtain ⟨u,hu,hinv,hwork,-⟩ := keeps_turn hs hm.1
      rw [List.length_cons] at h
      obtain ⟨t,ht,hzero⟩ := ih hinv (by omega) (hm.2 u hu)
      exact ⟨t,by rwa [List.map_cons,exec_cons_ok hu],hzero⟩
  obtain ⟨t,ht,hwork⟩ := hrun
  refine ⟨t,ht,?_⟩
  unfold Logs.work at hwork
  rw [Logs.pending,List.map_eq_nil_iff,← List.length_eq_zero_iff,List.length_append]
  omega

/-- Where every write takes a whole item, the records are written as a whole. -/
theorem written_whole {es : List Event} (hw : ∀ w, .thread_func w ∈ es → LOG_BUF_SIZE ≤ w.fwrite) :
    ∀ d ∈ trail Logs.step done s es, d.written = d.entry.text := by
  induction es generalizing s with
  | nil => exact fun d hd => absurd hd List.not_mem_nil
  | cons e es ih =>
    have hrest : ∀ w, .thread_func w ∈ es → LOG_BUF_SIZE ≤ w.fwrite :=
      fun w hmem => hw w (List.mem_cons_of_mem _ hmem)
    cases hu : s.step e with
    | error u =>
      rw [trail,hu,done_of_error hu]
      exact fun d hd => absurd hd List.not_mem_nil
    | ok u =>
      intro d hd
      rw [trail_cons_ok hu] at hd
      obtain hd | hd := List.mem_append.mp hd
      · obtain ⟨-,-,hdone⟩ | ⟨w,item,log,rfl,-,-,-,hdone⟩ := step_cases hu
        · rw [hdone] at hd
          cases hd
        · rw [hdone,Option.toList_some,List.mem_singleton] at hd
          rw [hd]
          have hlen : item.str.length ≤ LOG_BUF_SIZE :=
            (List.takeWhile_prefix _).length_le.trans item.length_txt.le
          exact List.take_of_length_le (hlen.trans (hw w List.mem_cons_self))
      · exact ih hrest d hd

/-- The disk after some records, file by file. -/
theorem foldl_put (ds : List Done) (disk : Disk) (name : List UInt8) :
    ds.foldl Done.put disk name =
      disk name ++ (ds.filter (fun d => d.In name)).flatMap Done.written := by
  induction ds generalizing disk with
  | nil => simp
  | cons d ds ih =>
    rw [List.foldl_cons,ih,List.filter_cons]
    cases hfile : d.file with
    | none => simp [Done.put,Done.In,hfile]
    | some fp =>
      by_cases hname : fp.name = name
      · subst hname
        simp [Done.put,Done.In,hfile]
      · simp [Done.put,Done.In,hfile,hname,Function.update_of_ne (Ne.symm hname)]

end

/-! ### From the start -/

/-- The arguments of a constructor, with the level of the build and what was in `_curftime`. -/
structure Args where
  fname : List UInt8
  type : LOGTYPE
  policy : LOGFILE_CFG
  fsize : ℤ
  logLevel : ℤ
  curftime : Date

def Args.new (a : Args) : CLog := .new a.fname a.type a.policy a.fsize a.logLevel a.curftime

def Logs.start (args : ℕ → Args) (disk : Disk) : Logs := ⟨fun l => (args l).new,⟨[]⟩,none,disk⟩

theorem start_inv (args : ℕ → Args) (disk : Disk) : (Logs.start args disk).Inv :=
  ⟨fun _ _ h => (by cases h),fun _ h => (by cases h)⟩

/-- As long as every call and every turn keeps to its buffers and numbers, the log does not stop.
The records that the log thread is done with and those it has not come to yet are the ones asked
for, in their order and each of them once; so many such turns are done with all of them; and a file
holds what it held, and behind that what was written of its records one after the other, which is
their whole texts where every write takes a whole item. -/
theorem run_logged (args : ℕ → Args) (disk : Disk) (es : List Event)
    (h : Meets (Steps Logs.step) Keeps (.start args disk) es) :
    ∃ s, exec Logs.step (.start args disk) es = .ok s ∧
      trail Logs.step asked (.start args disk) es =
        (trail Logs.step done (.start args disk) es).map Done.entry ++ s.pending ∧
      (∀ ws : List World, s.work ≤ ws.length →
        Meets (Steps Logs.step) Keeps s (ws.map .thread_func) →
        ∃ t, exec Logs.step s (ws.map .thread_func) = .ok t ∧ t.pending = []) ∧
      (∀ name, s.disk name = disk name ++
        ((trail Logs.step done (.start args disk) es).filter (fun d => d.In name)).flatMap
          Done.written) ∧
      ((∀ w, .thread_func w ∈ es → LOG_BUF_SIZE ≤ w.fwrite) →
        ∀ d ∈ trail Logs.step done (.start args disk) es, d.written = d.entry.text) := by
  obtain ⟨s,hs,hinv,horder,hdisk⟩ := run_keeps (start_inv args disk) h
  refine ⟨s,hs,horder,fun ws => run_drains hinv,fun name => ?_,fun hw => written_whole hw⟩
  rw [hdisk,foldl_put]
  rfl

/-- A record on the first day of 2009. -/
def newYear (c : Char) : Event :=
  .printEvent 0 ⟨⟨1230768000,0,by decide⟩,⟨109,0,1,0,0,0⟩⟩ (bytes [c])
    ⟨List.replicate 1024 0,List.length_replicate⟩

/-- The log thread writes an item of a logger whose files are opened or not. -/
def writes (opens : Bool) (fwrite : ℕ) : List Event :=
  let w : World := ⟨⟨109,0,1⟩,fun _ => opens,fwrite⟩
  [.thread_func w,.thread_func w]

/-- Four records of a logger whose files are full after one: the second finds no file, of the third
a part is written, and the last is still on its way. -/
def fourRecords : List Event :=
  newYear 'a' :: newYear 'b' :: (writes true 1024 ++ newYear 'c' :: (writes false 1024 ++
    (writes true 3 ++ [newYear 'd'])))

def smallFiles : Args := ⟨bytes ['f'],.EVENT_LOG,.SPLIT_ON_SIZE,20,5,⟨0,0,0⟩⟩

theorem fourRecords_keeps :
    Meets (Steps Logs.step) Keeps (.start (fun _ => smallFiles) fun _ => []) fourRecords := by
  decide +kernel

theorem run_logged_fourRecords : ∃ s,
    exec Logs.step (.start (fun _ => smallFiles) fun _ => []) fourRecords = .ok s ∧
      trail Logs.step asked (.start (fun _ => smallFiles) fun _ => []) fourRecords =
        (trail Logs.step done (.start (fun _ => smallFiles) fun _ => []) fourRecords).map
          Done.entry ++ s.pending ∧
      (trail Logs.step done (.start (fun _ => smallFiles) fun _ => []) fourRecords).map
          (fun d => (d.file,d.written.length)) =
        [(some ⟨bytes ['f','0','0','0','0','.','l','o','g'],26⟩,26),(none,26),
          (some ⟨bytes ['f','0','0','0','1','.','l','o','g'],3⟩,3)] ∧ s.pending.length = 1 := by
  obtain ⟨s,hs,horder,-⟩ := run_logged (fun _ => smallFiles) (fun _ => []) fourRecords
    fourRecords_keeps
  refine ⟨s,hs,horder,?_,?_⟩
  · decide +kernel
  · have hone : (exec Logs.step (.start (fun _ => smallFiles) fun _ => []) fourRecords).map
        (fun s => s.pending.length) = .ok 1 := by decide +kernel
    rw [hs] at hone
    exact Except.ok.inj hone

/-! ### Which record lies in which file -/

/-- The number of the file for the next record of a logger, behind a record that ends at `ftell`. -/
def Done.next (a : Args) (l n : ℕ) (d : Done) : ℕ :=
  match d.file with
  | none => n
  | some fp =>
    if d.entry.logger = l ∧ a.policy = .SPLIT_ON_SIZE ∧ sizeOr a.fsize ≤ fp.pos then n + 1 else n

/-- A record of the logger lies in the file of its day, or else in the one with the number, and
`ftell` is the length that the file has then. -/
def Done.Placed (a : Args) (l : ℕ) (disk : Disk) (n : ℕ) (d : Done) : Prop :=
  ∀ fp, d.file = some fp → d.entry.logger = l →
    fp.name = (if a.policy = .SPLIT_ON_DATE then dateName a.fname d.entry.logtime
      else sizeName a.fname n) ∧
    (d.written ≠ [] → fp.pos = (d.put disk fp.name).length)

/-- The records of a logger lie where they belong. -/
def Splits (a : Args) (l : ℕ) : Disk → ℕ → List Done → Prop
  | _,_,[] => True
  | disk,n,d :: ds => d.Placed a l disk n ∧ Splits a l (d.put disk) (d.next a l n) ds

/-- A logger that was constructed from the arguments and goes on with the number. -/
structure Tells (a : Args) (log : CLog) (n : ℕ) : Prop where
  fname : log._fname = a.fname
  lpolicy : log._lpolicy = a.policy
  fsize : log._fsize = sizeOr a.fsize
  number : a.policy ≠ .SPLIT_ON_DATE → log.number = n

/-- One item: it is placed, and the logger goes on with the next number. -/
theorem Updated.placed {a : Args} {log log' : CLog} {n : ℕ} {w : World} {item : Item}
    {disk disk' : Disk} (h : Updated log w item disk log' disk') (htells : Tells a log n) :
    Done.Placed a item.logger disk n (item.done w log') ∧
      Tells a log' (Done.next a item.logger n (item.done w log')) := by
  refine ⟨fun fp hfp _ => ?_,h.same.fname.trans htells.fname,h.same.lpolicy.trans htells.lpolicy,
    h.same.fsize.trans htells.fsize,fun hpolicy => ?_⟩
  · obtain ⟨hname,hdisk,hpos⟩ := h.kept fp hfp
    refine ⟨?_,fun hwritten => ?_⟩
    · rw [hname,target,htells.lpolicy,htells.fname]
      split_ifs with hpolicy
      · rfl
      · rw [htells.number hpolicy]
    · rw [hpos hwritten,hdisk,Done.put,hfp]
      rfl
  · rw [h.number_eq (htells.lpolicy ▸ hpolicy),htells.lpolicy,htells.fsize,htells.number hpolicy,
      Done.next,Item.done]
    cases hfp : log'._logfp with
    | none => rfl
    | some fp => simp [Item.entry]

theorem run_splits {a : Args} {l n : ℕ} {s : Logs} (hs : ∀ l, (s.log l).Named) (es : List Event)
    (htells : Tells a (s.log l) n) : Splits a l s.disk n (trail Logs.step done s es) := by
  induction es generalizing s n with
  | nil => trivial
  | cons e es ih =>
    cases hu : s.step e with
    | error u =>
      rw [trail,hu,done_of_error hu]
      trivial
    | ok u =>
      have hnamed := named_step hs hu
      have hdisk := disk_step hs hu
      rw [trail_cons_ok hu]
      obtain ⟨hlog,-,hdone⟩ | ⟨w,item,log,-,-,hupdate,hlog,hdone⟩ := step_cases hu
      · rw [hdone] at hdisk ⊢
        have hrest := ih hnamed (hlog ▸ htells)
        rw [hdisk] at hrest
        exact hrest
      · rw [hdone] at hdisk ⊢
        by_cases hl : item.logger = l
        · subst hl
          obtain ⟨hplaced,hnext⟩ := (update_spec (hs item.logger) hupdate).placed htells
          have hself : u.log item.logger = log := by rw [hlog,Function.update_self]
          rw [← hself] at hnext
          have hrest := ih hnamed hnext
          rw [hdisk,hself] at hrest
          exact ⟨hplaced,hrest⟩
        · have hother : u.log l = s.log l := by rw [hlog,Function.update_of_ne (Ne.symm hl)]
          have hnext : (item.done w log).next a l n = n := by
            unfold Done.next
            split
            · rfl
            · exact if_neg fun h => hl h.1
          have hrest := ih hnamed (hother ▸ htells)
          rw [hdisk] at hrest
          refine ⟨fun fp _ hsame => absurd hsame hl,?_⟩
          rw [hnext]
          exact hrest

/-- With dates every record lies in the file of its own day. With sizes the records of a logger
fill its files one after the other, from number zero on: the next file is begun exactly when the
one before has reached the size, and no number is left out. -/
theorem run_split (args : ℕ → Args) (disk : Disk) (es : List Event) (l : ℕ) :
    Splits (args l) l disk 0 (trail Logs.step done (.start args disk) es) := by
  have htells : Tells (args l) ((Logs.start args disk).log l) 0 := ⟨rfl,rfl,rfl,fun _ => rfl⟩
  exact run_splits (start_inv args disk).named es htells

end CLog
end CcniServer
