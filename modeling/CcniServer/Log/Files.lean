import CcniServer.Log.Logger

/-!
The files of a logger. `update` writes one item: into the file of the item's day, or into a
numbered file until that has reached its size, or always into the same one. Where a file cannot be
opened, `update` returns without the item, which nobody writes any more.
-/
namespace CcniServer
namespace CLog

/-- What the outside answers during one `update`: the day of `localtime(time)`, which files `fopen`
opens, and how many bytes of the item its file takes, which is not all of them on a full disk. -/
structure World where
  today : Date
  fopen : List UInt8 → Bool
  fwrite : ℕ

/-- The files by their names. -/
abbrev Disk := List UInt8 → List UInt8

/-- The format `"%s%04d%02d%02d.log"`. -/
def dateName (_fname : List UInt8) (t : Date) : List UInt8 :=
  _fname ++ num 4 (t.tm_year.toInt + 1900) ++ num 2 (t.tm_mon.toInt + 1) ++
    num 2 t.tm_mday.toInt ++ bytes ['.','l','o','g']

/-- The format `"%s%04d.log"`. -/
def sizeName (_fname : List UInt8) (n : ℕ) : List UInt8 :=
  _fname ++ num 4 n ++ bytes ['.','l','o','g']

/-- `sprintf` into `char fname[1024]`. -/
def sprintf (text : List UInt8) : Except Undefined (List UInt8) :=
  if text.length < 1024 then .ok text else .error .overrun

/-- `fopen` for `"a+"`: reading starts at the front, so that `ftell` answers zero until something
is written. -/
def fopen (w : World) (name : List UInt8) : Option FILE :=
  if w.fopen name then some ⟨name,0⟩ else none

def ftell (log : CLog) : ℕ := (log._logfp.map FILE.pos).getD 0

def _createDateLogFile (log : CLog) (w : World) (t : Date) : Except Undefined (Bool × CLog) :=
  if t.Prints then do
    let fname ← sprintf (dateName log._fname t)
    match fopen w fname with
    | none => return (false,{ log with _logfp := none })
    | some fp => return (true,{ log with _logfp := some fp, _curftime := t })
  else .error .overflow

def _createSizeLogFile (log : CLog) (w : World) : Except Undefined (Bool × CLog) := do
  let fname ← sprintf (sizeName log._fname log._fnumber)
  match fopen w fname with
  | none => return (false,{ log with _logfp := none })
  | some fp =>
    if h : log._fnumber + 1 < 2^31 then
      return (true,{ log with _logfp := some fp, _fnumber := log._fnumber + 1, fnumber_lt := h })
    else .error .overflow

def _createLogFile (log : CLog) (w : World) : Except Undefined (Bool × CLog) :=
  if log._lpolicy = .SPLIT_ON_DATE then log._createDateLogFile w w.today
  else log._createSizeLogFile w

theorem sprintf_ok {text fname : List UInt8} (h : sprintf text = .ok fname) : fname = text := by
  unfold sprintf at h
  split_ifs at h
  exact (Except.ok.inj h).symm

theorem fopen_some {w : World} {name : List UInt8} {fp : FILE} (h : fopen w name = some fp) :
    fp = ⟨name,0⟩ := by
  unfold fopen at h
  split_ifs at h
  exact (Option.some.inj h).symm

/-- What `update` does not change. -/
structure Same (log log' : CLog) : Prop where
  fname : log'._fname = log._fname
  lpolicy : log'._lpolicy = log._lpolicy
  fsize : log'._fsize = log._fsize
  type : log'._type = log._type
  logLevel : log'._logLevel = log._logLevel

theorem Same.rfl {log : CLog} : Same log log := ⟨by rfl,by rfl,by rfl,by rfl,by rfl⟩

theorem Same.trans {log log' log'' : CLog} (h : Same log log') (h' : Same log' log'') :
    Same log log'' :=
  ⟨h'.fname.trans h.fname,h'.lpolicy.trans h.lpolicy,h'.fsize.trans h.fsize,h'.type.trans h.type,
    h'.logLevel.trans h.logLevel⟩

section
variable {log log' : CLog} {w : World} {t : Date} {ok : Bool}

theorem _createDateLogFile_spec (h : log._createDateLogFile w t = .ok (ok,log')) : Same log log' ∧
    (ok = true → log'._curftime = t ∧ ∃ p, log'._logfp = some ⟨dateName log._fname t,p⟩) := by
  unfold _createDateLogFile at h
  split_ifs at h
  obtain ⟨fname,hname,h⟩ := Undefined.bind_eq_ok.mp h
  rw [sprintf_ok hname] at h
  cases hfp : fopen w (dateName log._fname t) with
  | none =>
    rw [hfp] at h
    cases h
    exact ⟨⟨rfl,rfl,rfl,rfl,rfl⟩,nofun⟩
  | some fp =>
    rw [hfp] at h
    cases h
    exact ⟨⟨rfl,rfl,rfl,rfl,rfl⟩,fun _ => ⟨rfl,0,congrArg some (fopen_some hfp)⟩⟩

theorem _createSizeLogFile_spec (h : log._createSizeLogFile w = .ok (ok,log')) : Same log log' ∧
    (ok = true → log'._fnumber = log._fnumber + 1 ∧
      log'._logfp = some ⟨sizeName log._fname log._fnumber,0⟩) ∧
    (ok = false → log'._fnumber = log._fnumber) := by
  obtain ⟨fname,hname,h⟩ := Undefined.bind_eq_ok.mp h
  rw [sprintf_ok hname] at h
  cases hfp : fopen w (sizeName log._fname log._fnumber) with
  | none =>
    rw [hfp] at h
    cases h
    exact ⟨⟨rfl,rfl,rfl,rfl,rfl⟩,nofun,fun _ => rfl⟩
  | some fp =>
    simp only [hfp] at h
    split_ifs at h
    cases h
    exact ⟨⟨rfl,rfl,rfl,rfl,rfl⟩,fun _ => ⟨rfl,congrArg some (fopen_some hfp)⟩,nofun⟩

end

/-- The loop that opens file after file, with `s` from `ftell`. A file that has just been opened
answers zero, which is below every size. -/
def nextFile (w : World) (log : CLog) (s : ℕ) : Except Undefined (Bool × CLog) :=
  if s ≥ log._fsize then
    match _h : log._createSizeLogFile w with
    | .error u => .error u
    | .ok (false,log') => .ok (false,log')
    | .ok (true,log') => nextFile w log' log'.ftell
  else .ok (true,log)
termination_by s
decreasing_by
  have hpos := log.fsize_pos
  rw [ftell,((_createSizeLogFile_spec _h).2.1 rfl).2]
  change 0 < s
  omega

/-- The part of `update` that closes the file and opens another one. -/
def split (log : CLog) (w : World) (t : Date) : Except Undefined (Bool × CLog) :=
  match log._lpolicy with
  | .NO_SPLIT => .ok (true,log)
  | .SPLIT_ON_DATE => if t ≠ log._curftime then log._createDateLogFile w t else .ok (true,log)
  | .SPLIT_ON_SIZE => nextFile w log log.ftell

/-- `fprintf` with `"%s"`, and `fflush`, which do not look whether the file takes the text or only
its front. What is written goes to the end of the file, and takes `ftell` there. -/
def fprintf (log : CLog) (w : World) (disk : Disk) (str : List UInt8) : CLog × Disk :=
  match log._logfp with
  | none => (log,disk)
  | some fp =>
    let written := str.take w.fwrite
    let file := disk fp.name ++ written
    ({ log with _logfp := some ⟨fp.name,if written = [] then fp.pos else file.length⟩ },
      Function.update disk fp.name file)

/-- The first part of `update`. -/
def opened (log : CLog) (w : World) : Except Undefined (Bool × CLog) :=
  if log._logfp.isNone then log._createLogFile w else .ok (true,log)

/-- The part of `update` in front of `fprintf`. -/
def chosen (log : CLog) (w : World) (t : Date) : Except Undefined (Bool × CLog) := do
  match ← log.opened w with
  | (false,log) => return (false,log)
  | (true,log) => log.split w t

def update (log : CLog) (w : World) (item : Item) (disk : Disk) :
    Except Undefined (CLog × Disk) := do
  match ← log.chosen w item.logtime with
  | (false,log) => return ({ log with _logfp := none },disk)
  | (true,log) => return log.fprintf w disk item.str

/-! ### Which file an item goes into -/

/-- The loop opens one file at most. -/
theorem nextFile_eq (w : World) (log : CLog) (s : ℕ) :
    nextFile w log s = if s ≥ log._fsize then log._createSizeLogFile w else .ok (true,log) := by
  rw [nextFile]
  split_ifs with hfull
  · split
    · next u h => exact h.symm
    · next log' h => exact h.symm
    · next log' h =>
      obtain ⟨hsame,hopen,-⟩ := _createSizeLogFile_spec h
      have hzero : log'.ftell = 0 := by rw [ftell,(hopen rfl).2]; rfl
      have hpos := log'.fsize_pos
      rw [hzero,nextFile,if_neg (by omega),h]
  · rfl

/-- The number of the file that the next item goes into, in a logger without dates. -/
def number (log : CLog) : ℕ :=
  match log._logfp with
  | none => log._fnumber
  | some fp =>
    if log._lpolicy = .SPLIT_ON_SIZE ∧ log._fsize ≤ fp.pos then log._fnumber
    else log._fnumber - 1

/-- The file that an item of a day goes into. -/
def target (log : CLog) (t : Date) : List UInt8 :=
  if log._lpolicy = .SPLIT_ON_DATE then dateName log._fname t else sizeName log._fname log.number

/-- The open file is the one that the fields tell. -/
def Named (log : CLog) : Prop :=
  ∀ fp, log._logfp = some fp →
    if log._lpolicy = .SPLIT_ON_DATE then fp.name = dateName log._fname log._curftime
    else 0 < log._fnumber ∧ fp.name = sizeName log._fname (log._fnumber - 1)

section
variable {log log' : CLog} {w : World} {t : Date} {ok : Bool}

/-- With dates the file of the item's day is open in the end, or none. -/
theorem chosen_date (hpolicy : log._lpolicy = .SPLIT_ON_DATE) (hnamed : log.Named)
    (h : log.chosen w t = .ok (ok,log')) : Same log log' ∧
      (ok = true → log'._curftime = t ∧ ∃ p, log'._logfp = some ⟨dateName log._fname t,p⟩) := by
  -- A file is open already, or the one of today has just been opened.
  have hopened : ∀ ok log₁, log.opened w = .ok (ok,log₁) → Same log log₁ ∧ (ok = true →
      ∃ p, log₁._logfp = some ⟨dateName log._fname log₁._curftime,p⟩) := by
    intro ok log₁ h₁
    unfold opened at h₁
    split_ifs at h₁ with hnone
    · rw [_createLogFile,if_pos hpolicy] at h₁
      obtain ⟨hsame,hopen⟩ := _createDateLogFile_spec h₁
      refine ⟨hsame,fun hok => ?_⟩
      obtain ⟨hday,p,hp⟩ := hopen hok
      exact ⟨p,by rw [hp,hday]⟩
    · cases h₁
      refine ⟨.rfl,fun _ => ?_⟩
      cases hfp : log._logfp with
      | none => simp [hfp] at hnone
      | some fp =>
        have hname := hnamed fp hfp
        rw [if_pos hpolicy] at hname
        exact ⟨fp.pos,by rw [← hname]⟩
  obtain ⟨⟨ok₁,log₁⟩,h₁,h⟩ := Undefined.bind_eq_ok.mp h
  obtain ⟨hsame,hopen⟩ := hopened ok₁ log₁ h₁
  cases ok₁ with
  | false =>
    cases h
    exact ⟨hsame,nofun⟩
  | true =>
    obtain ⟨p,hp⟩ := hopen rfl
    dsimp only at h
    rw [split,hsame.lpolicy,hpolicy] at h
    dsimp only at h
    by_cases hday : t = log₁._curftime
    · rw [if_neg (not_not.mpr hday)] at h
      cases h
      exact ⟨hsame,fun _ => ⟨hday.symm,p,by rw [hp,hday]⟩⟩
    · rw [if_pos hday] at h
      obtain ⟨hsame',hopen'⟩ := _createDateLogFile_spec h
      exact ⟨hsame.trans hsame',fun hok => hsame.fname ▸ hopen' hok⟩

/-- Without dates the open file stays, or gives way to the one with the next number where it has
reached its size. -/
theorem split_size {fp : FILE} (hpolicy : log._lpolicy ≠ .SPLIT_ON_DATE)
    (hfp : log._logfp = some fp) (hpos : 0 < log._fnumber)
    (hname : fp.name = sizeName log._fname (log._fnumber - 1))
    (h : log.split w t = .ok (ok,log')) : Same log log' ∧
      (ok = true → log'._fnumber = log.number + 1 ∧
        ∃ p, log'._logfp = some ⟨sizeName log._fname log.number,p⟩) ∧
      (ok = false → log'._fnumber = log.number) := by
  have hopen : ∃ p, log._logfp = some ⟨sizeName log._fname (log._fnumber - 1),p⟩ :=
    ⟨fp.pos,by rw [hfp,← hname]⟩
  have hstay : log.number = log._fnumber - 1 → log' = log → ok = true → Same log log' ∧
      (ok = true → log'._fnumber = log.number + 1 ∧
        ∃ p, log'._logfp = some ⟨sizeName log._fname log.number,p⟩) ∧
      (ok = false → log'._fnumber = log.number) := by
    rintro hnumber rfl rfl
    rw [hnumber]
    exact ⟨.rfl,fun _ => ⟨by omega,hopen⟩,nofun⟩
  unfold split at h
  split at h
  · next hno =>
    cases h
    refine hstay ?_ rfl rfl
    simp [number,hfp,hno]
  · next hdate => exact absurd hdate hpolicy
  · next hsize =>
    have htell : log.ftell = fp.pos := by rw [ftell,hfp]; rfl
    rw [nextFile_eq,htell] at h
    split_ifs at h with hfull
    · have hnumber : log.number = log._fnumber := by
        simp only [number,hfp]
        exact if_pos ⟨hsize,hfull⟩
      rw [hnumber]
      obtain ⟨hsame,hnew,hlost⟩ := _createSizeLogFile_spec h
      exact ⟨hsame,fun hok => ⟨(hnew hok).1,0,(hnew hok).2⟩,hlost⟩
    · cases h
      refine hstay ?_ rfl rfl
      simp only [number,hfp]
      exact if_neg fun hboth => hfull hboth.2

/-- Without dates the file with the current number is open in the end, or none. -/
theorem chosen_size (hpolicy : log._lpolicy ≠ .SPLIT_ON_DATE) (hnamed : log.Named)
    (h : log.chosen w t = .ok (ok,log')) : Same log log' ∧
      (ok = true → log'._fnumber = log.number + 1 ∧
        ∃ p, log'._logfp = some ⟨sizeName log._fname log.number,p⟩) ∧
      (ok = false → log'._fnumber = log.number) := by
  obtain ⟨⟨ok₁,log₁⟩,h₁,h⟩ := Undefined.bind_eq_ok.mp h
  unfold opened at h₁
  cases hfp : log._logfp with
  | none =>
    have hnumber : log.number = log._fnumber := by rw [number,hfp]
    rw [if_pos (by rw [hfp]; rfl),_createLogFile,if_neg hpolicy] at h₁
    obtain ⟨hsame,hopen,hlost⟩ := _createSizeLogFile_spec h₁
    cases ok₁ with
    | false =>
      cases h
      rw [hnumber]
      exact ⟨hsame,nofun,hlost⟩
    | true =>
      -- The file that is opened is empty to `ftell`, and has the number of the one to come.
      obtain ⟨hnext,hnew⟩ := hopen rfl
      have hpos := log₁.fsize_pos
      have hnumber₁ : log₁.number = log.number := by
        rw [hnumber,number,hnew,hnext]
        exact if_neg fun hboth => absurd hboth.2 (by dsimp only; omega)
      obtain ⟨hsame',hok,hfail⟩ := split_size (by rwa [hsame.lpolicy]) hnew (by omega)
        (by rw [hsame.fname,hnext]; rfl) h
      rw [hnumber₁] at hok hfail
      rw [hsame.fname] at hok
      exact ⟨hsame.trans hsame',hok,hfail⟩
  | some fp =>
    have hname := hnamed fp hfp
    rw [if_neg hpolicy] at hname
    rw [if_neg (by simp [hfp])] at h₁
    cases h₁
    exact split_size hpolicy hfp hname.1 hname.2 h

/-- The file that is open in the end, and the field that tells which one it is. -/
theorem chosen_true (hnamed : log.Named) (h : log.chosen w t = .ok (true,log')) :
    Same log log' ∧ (∃ p, log'._logfp = some ⟨log.target t,p⟩) ∧
      if log._lpolicy = .SPLIT_ON_DATE then log'._curftime = t
      else log'._fnumber = log.number + 1 := by
  by_cases hpolicy : log._lpolicy = .SPLIT_ON_DATE
  · obtain ⟨hsame,hok⟩ := chosen_date hpolicy hnamed h
    obtain ⟨hday,hfp⟩ := hok rfl
    rw [target,if_pos hpolicy,if_pos hpolicy]
    exact ⟨hsame,hfp,hday⟩
  · obtain ⟨hsame,hok,-⟩ := chosen_size hpolicy hnamed h
    obtain ⟨hnumber,hfp⟩ := hok rfl
    rw [target,if_neg hpolicy,if_neg hpolicy]
    exact ⟨hsame,hfp,hnumber⟩

end

/-- Everything that `update` does: what the file takes of the item is at the end of its file, or
nothing anywhere. -/
structure Updated (log : CLog) (w : World) (item : Item) (disk : Disk) (log' : CLog)
    (disk' : Disk) : Prop where
  same : Same log log'
  named : log'.Named
  lost : log'._logfp = none → disk' = disk
  kept : ∀ fp, log'._logfp = some fp → fp.name = log.target item.logtime ∧
    disk' = Function.update disk fp.name (disk fp.name ++ item.str.take w.fwrite) ∧
    (item.str.take w.fwrite ≠ [] → fp.pos = (disk' fp.name).length)
  number : log._lpolicy ≠ .SPLIT_ON_DATE →
    log'._fnumber = log.number + if log'._logfp.isSome then 1 else 0

theorem update_spec {log log' : CLog} {w : World} {item : Item} {disk disk' : Disk}
    (hnamed : log.Named) (h : log.update w item disk = .ok (log',disk')) :
    Updated log w item disk log' disk' := by
  obtain ⟨⟨ok,log₁⟩,hchosen,h⟩ := Undefined.bind_eq_ok.mp h
  cases ok with
  | false =>
    cases h
    refine ⟨?_,nofun,fun _ => rfl,nofun,fun hpolicy => ?_⟩
    · by_cases hpolicy : log._lpolicy = .SPLIT_ON_DATE
      · exact (chosen_date hpolicy hnamed hchosen).1.trans ⟨rfl,rfl,rfl,rfl,rfl⟩
      · exact (chosen_size hpolicy hnamed hchosen).1.trans ⟨rfl,rfl,rfl,rfl,rfl⟩
    · exact (chosen_size hpolicy hnamed hchosen).2.2 rfl
  | true =>
    obtain ⟨hsame,⟨p,hp⟩,hfield⟩ := chosen_true hnamed hchosen
    have hprint := Except.ok.inj h
    rw [fprintf,hp] at hprint
    cases hprint
    refine ⟨hsame.trans ⟨rfl,rfl,rfl,rfl,rfl⟩,?_,nofun,?_,fun hpolicy => ?_⟩
    · rintro fp hfp
      cases hfp
      dsimp only
      rw [hsame.lpolicy,hsame.fname]
      by_cases hpolicy : log._lpolicy = .SPLIT_ON_DATE
      · rw [if_pos hpolicy] at hfield ⊢
        rw [target,if_pos hpolicy,hfield]
      · rw [if_neg hpolicy] at hfield ⊢
        rw [target,if_neg hpolicy,hfield]
        exact ⟨Nat.succ_pos _,rfl⟩
    · rintro fp hfp
      cases hfp
      refine ⟨rfl,rfl,fun hne => ?_⟩
      rw [if_neg hne]
      dsimp only
      rw [Function.update_self]
    · rw [if_neg hpolicy] at hfield
      exact hfield

/-- The number moves on behind a file that has reached its size. -/
theorem Updated.number_eq {log log' : CLog} {w : World} {item : Item} {disk disk' : Disk}
    (h : Updated log w item disk log' disk') (hpolicy : log._lpolicy ≠ .SPLIT_ON_DATE) :
    log'.number = match log'._logfp with
      | none => log.number
      | some fp =>
        if log._lpolicy = .SPLIT_ON_SIZE ∧ log._fsize ≤ fp.pos then log.number + 1
        else log.number := by
  have hnumber := h.number hpolicy
  unfold CLog.number at hnumber ⊢
  rw [h.same.lpolicy,h.same.fsize]
  cases hfp : log'._logfp with
  | none =>
    rw [hfp] at hnumber
    exact hnumber
  | some fp =>
    rw [hfp] at hnumber
    dsimp only at hnumber ⊢
    rw [hnumber]
    simp

/-! ### Names that fit -/

/-- Whatever name `update` prints fits into its buffer, the day in it prints, and there is a number
left for the file after. -/
def Fits (log : CLog) (w : World) (t : Date) : Prop :=
  if log._lpolicy = .SPLIT_ON_DATE then
    ∀ day ∈ [w.today,t], day.Prints ∧ (dateName log._fname day).length < 1024
  else (sizeName log._fname log._fnumber).length < 1024 ∧ log._fnumber + 1 < 2^31

instance (log : CLog) (w : World) (t : Date) : Decidable (log.Fits w t) :=
  inferInstanceAs (Decidable (if log._lpolicy = .SPLIT_ON_DATE then
      ∀ day ∈ [w.today,t], day.Prints ∧ (dateName log._fname day).length < 1024
    else (sizeName log._fname log._fnumber).length < 1024 ∧ log._fnumber + 1 < 2^31))

section
variable {log log' : CLog} {w : World} {t : Date}

theorem _createDateLogFile_ok (hday : t.Prints) (hname : (dateName log._fname t).length < 1024) :
    ∃ r, log._createDateLogFile w t = .ok r := by
  rw [_createDateLogFile,if_pos hday,sprintf,if_pos hname]
  simp only [Bind.bind,Except.bind]
  split <;> exact ⟨_,rfl⟩

theorem _createSizeLogFile_ok (hname : (sizeName log._fname log._fnumber).length < 1024)
    (hnumber : log._fnumber + 1 < 2^31) : ∃ r, log._createSizeLogFile w = .ok r := by
  rw [_createSizeLogFile,sprintf,if_pos hname]
  simp only [Bind.bind,Except.bind]
  split
  · exact ⟨_,rfl⟩
  · rw [dif_pos hnumber]
    exact ⟨_,rfl⟩

theorem split_size_ok (hpolicy : log._lpolicy ≠ .SPLIT_ON_DATE)
    (hnext : log._fsize ≤ log.ftell → ∃ r, log._createSizeLogFile w = .ok r) :
    ∃ r, log.split w t = .ok r := by
  unfold split
  split
  · exact ⟨_,rfl⟩
  · next hdate => exact absurd hdate hpolicy
  · rw [nextFile_eq]
    split_ifs with hfull
    · exact hnext hfull
    · exact ⟨_,rfl⟩

theorem chosen_ok (h : log.Fits w t) : ∃ r, log.chosen w t = .ok r := by
  unfold Fits at h
  split_ifs at h with hpolicy
  · have hopened : ∃ r, log.opened w = .ok r ∧ Same log r.2 := by
      unfold opened _createLogFile
      split_ifs
      · obtain ⟨hday,hname⟩ := h w.today (by simp)
        obtain ⟨r,hr⟩ := _createDateLogFile_ok (w := w) hday hname
        exact ⟨r,hr,(_createDateLogFile_spec hr).1⟩
      · exact ⟨_,rfl,.rfl⟩
    obtain ⟨⟨ok,log₁⟩,h₁,hsame⟩ := hopened
    unfold chosen
    rw [h₁]
    cases ok with
    | false => exact ⟨_,rfl⟩
    | true =>
      obtain ⟨hday,hname⟩ := h t (by simp)
      change ∃ r, log₁.split w t = .ok r
      rw [split,hsame.lpolicy,hpolicy]
      dsimp only
      split_ifs
      · exact _createDateLogFile_ok hday (hsame.fname.symm ▸ hname)
      · exact ⟨_,rfl⟩
  · obtain ⟨⟨ok,log₁⟩,h₁⟩ := _createSizeLogFile_ok (w := w) h.1 h.2
    unfold chosen opened
    rw [_createLogFile,if_neg hpolicy,h₁]
    split_ifs
    · cases ok with
      | false => exact ⟨_,rfl⟩
      | true =>
        obtain ⟨hsame,hopen,-⟩ := _createSizeLogFile_spec h₁
        have hzero : log₁.ftell = 0 := by rw [ftell,(hopen rfl).2]; rfl
        have hpos := log₁.fsize_pos
        exact split_size_ok (by rwa [hsame.lpolicy]) fun hfull => absurd hfull (by omega)
    · exact split_size_ok hpolicy fun _ => ⟨_,h₁⟩

theorem update_ok {item : Item} (h : log.Fits w item.logtime) (disk : Disk) :
    ∃ log' disk', log.update w item disk = .ok (log',disk') := by
  obtain ⟨⟨ok,log₁⟩,h₁⟩ := chosen_ok h
  unfold update
  rw [h₁]
  cases ok with
  | false => exact ⟨_,_,rfl⟩
  | true => exact ⟨_,_,rfl⟩

end
end CLog
end CcniServer
