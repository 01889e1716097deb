import TreasureHouse.BoundedBufferProofs
import TreasureHouse.MachineIntProofs

/-! # `log/log.c` — the head of a log line

    `log_fmt_tostring` walks over a format with one character of memory
    (`prev`) and appends to a buffer of `len` bytes; what an append returns
    may run past the buffer, and only `log_get_time_fmt` cuts it down.

    `expand` is the text the format stands for, read off the list of
    conversions in `docs/log.md`.  `log_fmt_tostring_expand`: whatever the
    format and the length, the buffer ends up with the first `len - 1`
    characters of that text and a terminator, and nothing outside it is
    written.

    Characters are `Char`s, of which the code looks at ASCII ones only.  An
    `int` that overflows and a NULL printed with `%s` have no result. -/

namespace LogFmt

open MachineInt BoundedBuffer

-- ── The data ─────────────────────────────────────────────────────────────────

/-- `'\0'`. -/
def nul : Char := Char.ofNat 0

/-- A C string, without its terminator. -/
structure CString where
  chars : List Char
  noNul : nul ∉ chars

/-- `x + y` on `int`. -/
def addInt (x y : Int) : Option Int :=
  if -2 ^ 31 ≤ x + y ∧ x + y < 2 ^ 31 then some (x + y) else none

/-- The fields of `struct tm` that are read, for a month and a year that are
    `int`s when counted from 1 and from 0. -/
structure Tm where
  sec : Int
  min : Int
  hour : Int
  mday : Int
  mon : Int
  year : Int
  mon_range : -2 ^ 31 ≤ mon + 1 ∧ mon + 1 < 2 ^ 31
  year_range : -2 ^ 31 ≤ 1900 + year ∧ 1900 + year < 2 ^ 31

/-- `LOG_LEVEL_ALL`. -/
def levelAll : Int := -1

/-- `LOG_LEVEL_OFF`. -/
def levelOff : Int := 6

/-- The arguments of a call that are printed, and what `localtime` gives at
    each reading of the clock. -/
structure Call where
  level : Int
  filename : CString
  lineno : Int
  clock : Nat → Tm

-- ── The code ─────────────────────────────────────────────────────────────────

/-- `level_to_string`; NULL as `none`. -/
def levelToString : Int → Option (List Char)
  | 0 => some "TRACE".toList
  | 1 => some "DEBUG".toList
  | 2 => some "INFO".toList
  | 3 => some "WARNING".toList
  | 4 => some "ERROR".toList
  | 5 => some "FATAL".toList
  | _ => none

/-- `%0<w>d`; `%d` has width 0. -/
def padded (w : Nat) (x : Int) : List Char :=
  let sign := if x < 0 then ['-'] else []
  let digits := Nat.toDigits 10 x.natAbs
  sign ++ List.replicate (w - (sign.length + digits.length)) '0' ++ digits

/-- `log_get_time_fmt` at position `str` of a buffer of `cap` bytes. -/
def logGetTimeFmt (tm : Tm) (format : Char) (cap : Int) (mem : Int → Char) (str len : Int) :
    Option (Int × (Int → Char)) :=
  let print (text : Option (List Char)) := text.bind (snprintf nul cap mem str (toUnsigned 64 len))
  let done :=
    match format with
    | 'Y' => print ((addInt 1900 tm.year).map (padded 4))
    | 'm' => print ((addInt tm.mon 1).map (padded 2))
    | 'd' => print (some (padded 2 tm.mday))
    | 'F' => print ((addInt 1900 tm.year).bind fun year => (addInt tm.mon 1).map fun mon =>
        padded 4 year ++ '-' :: padded 2 mon ++ '-' :: padded 2 tm.mday)
    | 'H' => print (some (padded 2 tm.hour))
    | 'M' => print (some (padded 2 tm.min))
    | 'S' => print (some (padded 2 tm.sec))
    | 'T' => print (some (padded 2 tm.hour ++ ':' :: padded 2 tm.min ++ ':' :: padded 2 tm.sec))
    | _ => some (0, mem)
  done.map fun r => (if r.1 < len - 1 then r.1 else len - 1, r.2)

/-- The variables of the loop, the number of clock readings so far and the
    buffer. -/
structure Loop where
  i : Int
  prev : Char
  ticks : Nat
  mem : Int → Char

/-- The characters that `log_get_time_fmt` is called for. -/
def timeChars : List Char := ['Y', 'm', 'd', 'F', 'H', 'M', 'S', 'T']

/-- `str[i++] = c; prev = …`. -/
def Loop.put (s : Loop) (len : Int) (c prev : Char) : Option Loop := do
  let mem ← store len s.mem s.i c
  let i ← addInt s.i 1
  some { s with i := i, prev := prev, mem := mem }

/-- `i += str_len; prev = 0`. -/
def Loop.advance (s : Loop) (ticks : Nat) (printed : Option (Int × (Int → Char))) :
    Option Loop := do
  let (n, mem) ← printed
  let i ← addInt s.i n
  some { i := i, prev := nul, ticks := ticks, mem := mem }

/-- The body of the loop. -/
def fmtStep (call : Call) (len : Int) (c : Char) (s : Loop) : Option Loop :=
  let printTo := snprintf nul len s.mem s.i (toUnsigned 64 (len - s.i))
  if s.prev ≠ '%' ∧ c ≠ '%' then
    s.put len c c
  else if s.prev ≠ '%' ∧ c = '%' then
    some { s with prev := c }
  else if c = '%' then
    s.put len '%' nul
  else if c ∈ timeChars then
    s.advance (s.ticks + 1)
      (logGetTimeFmt (call.clock s.ticks) c len s.mem s.i (len - s.i))
  else if c = 'f' then
    s.advance s.ticks (printTo call.filename.chars)
  else if c = 'l' then
    s.advance s.ticks (printTo (padded 0 call.lineno))
  else if c = 'L' then
    s.advance s.ticks ((levelToString call.level).bind printTo)
  else
    s.put len c c

/-- The loop over the rest of the format; its end is the `'\0'`. -/
def fmtLoop (call : Call) (len : Int) : List Char → Loop → Option Loop
  | [], s => some s
  | c :: fmt, s =>
      if s.i < len - 1 then (fmtStep call len c s).bind (fmtLoop call len fmt) else some s

/-- `log_fmt_tostring` on a buffer of `len` bytes with contents `mem`. -/
def logFmtTostring (call : Call) (fmt : CString) (mem : Int → Char) (len : Int) :
    Option (Int → Char) :=
  (fmtLoop call len fmt.chars { i := 0, prev := nul, ticks := 0, mem := mem }).bind fun s =>
    store len s.mem (if s.i < len then s.i else len - 1) nul

-- ── The text a format stands for ─────────────────────────────────────────────

/-- The text of `%c`. -/
def conversion (call : Call) (tm : Tm) (c : Char) : List Char :=
  let year := padded 4 (1900 + tm.year)
  let month := padded 2 (tm.mon + 1)
  let day := padded 2 tm.mday
  let hour := padded 2 tm.hour
  let minute := padded 2 tm.min
  let second := padded 2 tm.sec
  match c with
  | '%' => ['%']
  | 'Y' => year
  | 'm' => month
  | 'd' => day
  | 'F' => year ++ '-' :: month ++ '-' :: day
  | 'H' => hour
  | 'M' => minute
  | 'S' => second
  | 'T' => hour ++ ':' :: minute ++ ':' :: second
  | 'f' => call.filename.chars
  | 'l' => padded 0 call.lineno
  | 'L' => (levelToString call.level).getD []
  | c => [c]

/-- The whole text, from the `k`-th reading of the clock on. -/
def expand (call : Call) : Nat → List Char → List Char
  | _, [] => []
  | _, ['%'] => []
  | k, '%' :: c :: fmt =>
      conversion call (call.clock k) c
        ++ expand call (if c ∈ timeChars then k + 1 else k) fmt
  | k, c :: fmt => c :: expand call k fmt

/-- What a `%` that is still open puts before the rest of the format. -/
def pending (prev : Char) (fmt : List Char) : List Char := if prev = '%' then '%' :: fmt else fmt

/-- The text of one round of the loop. -/
def stepText (call : Call) (ticks : Nat) (prev c : Char) : List Char :=
  if prev = '%' then conversion call (call.clock ticks) c else if c = '%' then [] else [c]

/-- The clock readings after it. -/
def stepTicks (ticks : Nat) (prev c : Char) : Nat :=
  if prev = '%' ∧ c ∈ timeChars then ticks + 1 else ticks

/-- The `%` that is open after it. -/
def stepPrev (prev c : Char) : Char := if prev = '%' then nul else c

theorem stepPrev_iff (prev c : Char) : stepPrev prev c = '%' ↔ prev ≠ '%' ∧ c = '%' := by
  rw [stepPrev]
  by_cases hp : prev = '%'
  · rw [if_pos hp]
    exact iff_of_false (by decide) (fun h => h.1 hp)
  · rw [if_neg hp]
    exact (and_iff_right hp).symm

theorem expand_pending_nil (call : Call) (ticks : Nat) (prev : Char) :
    expand call ticks (pending prev []) = [] := by
  rw [pending]
  by_cases hp : prev = '%'
  · rw [if_pos hp, expand]
  · rw [if_neg hp, expand]

theorem expand_cons (call : Call) (ticks : Nat) {c : Char} (fmt : List Char) (hc : c ≠ '%') :
    expand call ticks (c :: fmt) = c :: expand call ticks fmt := by
  rw [expand]
  · exact fun h _ => hc h
  · exact fun _ _ h _ => hc h

/-- The text is put out round by round; a `%` stays open for one round. -/
theorem expand_pending_cons (call : Call) (ticks : Nat) {prev prev' c : Char} (fmt : List Char)
    (hprev : prev' = '%' ↔ prev ≠ '%' ∧ c = '%') :
    expand call ticks (pending prev (c :: fmt))
      = stepText call ticks prev c ++ expand call (stepTicks ticks prev c) (pending prev' fmt) := by
  rw [pending, pending, stepText, stepTicks]
  by_cases hp : prev = '%'
  · have hp' : ¬ prev' = '%' := fun h => (hprev.mp h).1 hp
    rw [if_pos hp, if_neg hp', if_pos hp, expand]
    simp only [hp, true_and]
  · rw [if_neg hp, if_neg hp, if_neg (show ¬ (prev = '%' ∧ c ∈ timeChars) from fun h => hp h.1)]
    by_cases hc : c = '%'
    · rw [if_pos (hprev.mpr ⟨hp, hc⟩), if_pos hc, hc, List.nil_append]
    · rw [if_neg (fun h => hc (hprev.mp h).2), if_neg hc, List.singleton_append,
        expand_cons call ticks fmt hc]

-- ── The appends ──────────────────────────────────────────────────────────────

theorem addInt_eq {x y : Int} (h : -2 ^ 31 ≤ x + y ∧ x + y < 2 ^ 31) : addInt x y = some (x + y) :=
  if_pos h

/-- `log_get_time_fmt` prints the text of its conversion and cuts the length
    down. -/
theorem logGetTimeFmt_eq (call : Call) (tm : Tm) {c : Char} (hc : c ∈ timeChars) (cap : Int)
    (mem : Int → Char) (str len : Int) :
    logGetTimeFmt tm c cap mem str len
      = (snprintf nul cap mem str (toUnsigned 64 len) (conversion call tm c)).map
          fun r => (if r.1 < len - 1 then r.1 else len - 1, r.2) := by
  have hyear := addInt_eq tm.year_range
  have hmon := addInt_eq tm.mon_range
  simp only [timeChars, List.mem_cons, List.not_mem_nil, or_false] at hc
  rcases hc with rfl | rfl | rfl | rfl | rfl | rfl | rfl | rfl
  · simp only [logGetTimeFmt, hyear, Option.map_some, Option.bind_some, conversion]
  · simp only [logGetTimeFmt, hmon, Option.map_some, Option.bind_some, conversion]
  · rfl
  · simp only [logGetTimeFmt, hyear, hmon, Option.map_some, Option.bind_some, conversion]
  · rfl
  · rfl
  · rfl
  · rfl

section Step

variable {call : Call} {len : Int} {before : Int → Char} {out : List Char} {s : Loop}

/-- One character. -/
theorem Loop.put_spec (h : PutOut len before out s.i s.mem) (hi : s.i < len - 1)
    (hint : len < 2 ^ 31) (c prev : Char) :
    ∃ s', s.put len c prev = some s' ∧ s'.prev = prev ∧ s'.ticks = s.ticks
      ∧ PutOut len before (out ++ [c]) s'.i s'.mem := by
  obtain ⟨mem', hstore, hput⟩ := h.store hi c
  have hge := h.index_nonneg
  refine ⟨{ s with i := s.i + 1, prev := prev, mem := mem' }, ?_, rfl, rfl, hput⟩
  rw [Loop.put, hstore, Option.bind_eq_bind, Option.bind_some, addInt_eq (by omega)]
  rfl

/-- A text printed by `snprintf`, whose length may have been cut down. -/
theorem Loop.advance_spec (h : PutOut len before out s.i s.mem) (hi : s.i < len - 1)
    {text : List Char} (htext : out.length + text.length < 2 ^ 31) (hint : len < 2 ^ 31)
    (ticks : Nat) {cut : Int → Int} (hcut : ∀ n, 0 ≤ n → 0 ≤ cut n ∧ cut n ≤ n
      ∧ min (s.i + cut n) (len - 1) = min (s.i + n) (len - 1)) :
    ∃ s', s.advance ticks ((snprintf nul len s.mem s.i (toUnsigned 64 (len - s.i)) text).map
        fun r => (cut r.1, r.2)) = some s' ∧ s'.prev = nul ∧ s'.ticks = ticks
      ∧ PutOut len before (out ++ text) s'.i s'.mem := by
  obtain ⟨mem', hprint, hput⟩ := h.snprintf hi nul (show text.length < 2 ^ 31 by omega)
  have hge := h.index_nonneg
  have heq := h.index_eq hi
  have hsize : toUnsigned 64 (len - s.i) = (len - s.i).toNat := by
    rw [toUnsigned]
    omega
  obtain ⟨h0, hle, hmin⟩ := hcut text.length (Int.natCast_nonneg _)
  have hnext : 0 ≤ s.i + cut text.length := by omega
  refine ⟨⟨s.i + cut text.length, nul, ticks, mem'⟩, ?_, rfl, rfl, hput.clamp hnext hmin⟩
  rw [hsize, hprint, Option.map_some, Loop.advance, Option.bind_eq_bind, Option.bind_some]
  simp only [addInt_eq (show -2 ^ 31 ≤ s.i + cut text.length ∧ s.i + cut text.length < 2 ^ 31 by
    omega), Option.bind_eq_bind, Option.bind_some]

/-- A text whose length is returned as it is. -/
theorem Loop.advance_whole (h : PutOut len before out s.i s.mem) (hi : s.i < len - 1)
    {text : List Char} (htext : out.length + text.length < 2 ^ 31) (hint : len < 2 ^ 31)
    (ticks : Nat) :
    ∃ s', s.advance ticks (snprintf nul len s.mem s.i (toUnsigned 64 (len - s.i)) text) = some s'
      ∧ s'.prev = nul ∧ s'.ticks = ticks ∧ PutOut len before (out ++ text) s'.i s'.mem := by
  have hcut : ∀ n : Int, 0 ≤ n → 0 ≤ id n ∧ id n ≤ n
      ∧ min (s.i + id n) (len - 1) = min (s.i + n) (len - 1) :=
    fun n h0 => ⟨h0, Int.le_refl n, rfl⟩
  obtain ⟨s', heq, hs'⟩ := Loop.advance_spec h hi htext hint ticks hcut
  refine ⟨s', ?_, hs'⟩
  rw [← heq]
  exact congrArg _ Option.map_id'.symm

end Step

/-- Another character stands for itself. -/
theorem conversion_other (call : Call) (tm : Tm) {c : Char} (ht : c ∉ timeChars) (hf : c ≠ 'f')
    (hl : c ≠ 'l') (hL : c ≠ 'L') : conversion call tm c = [c] := by
  simp only [timeChars, List.mem_cons, List.not_mem_nil, or_false, not_or] at ht
  obtain ⟨hY, hm, hd, hF, hH, hM, hS, hT⟩ := ht
  by_cases hc : c = '%'
  · rw [hc]
    rfl
  · simp only [conversion]

/-- A valid level has a name. -/
theorem levelToString_some {level : Int} (h : levelAll < level ∧ level < levelOff) :
    ∃ name, levelToString level = some name := by
  rw [levelAll, levelOff] at h
  obtain rfl | rfl | rfl | rfl | rfl | rfl :
      level = 0 ∨ level = 1 ∨ level = 2 ∨ level = 3 ∨ level = 4 ∨ level = 5 := by
    omega
  · exact ⟨_, rfl⟩
  · exact ⟨_, rfl⟩
  · exact ⟨_, rfl⟩
  · exact ⟨_, rfl⟩
  · exact ⟨_, rfl⟩
  · exact ⟨_, rfl⟩

-- ── The loop ─────────────────────────────────────────────────────────────────

section Rounds

variable {call : Call} {len : Int} {before : Int → Char} {out : List Char} {s : Loop} {c : Char}

/-- A round after a `%`: the conversion, and no `%` is left open. -/
theorem fmtStep_conversion (hlevel : levelAll < call.level ∧ call.level < levelOff)
    (h : PutOut len before out s.i s.mem) (hi : s.i < len - 1) (hint : len < 2 ^ 31)
    (hp : s.prev = '%')
    (htext : out.length + (conversion call (call.clock s.ticks) c).length < 2 ^ 31) :
    ∃ s', fmtStep call len c s = some s' ∧ s'.prev ≠ '%'
      ∧ s'.ticks = (if c ∈ timeChars then s.ticks + 1 else s.ticks)
      ∧ PutOut len before (out ++ conversion call (call.clock s.ticks) c) s'.i s'.mem := by
  have hnul : nul ≠ '%' := by decide
  rw [fmtStep, if_neg (fun hne => hne.1 hp), if_neg (fun hne => hne.1 hp)]
  by_cases hc : c = '%'
  · obtain ⟨s', heq, hprev, hticks, hput⟩ := Loop.put_spec h hi hint '%' nul
    rw [if_pos hc, if_neg (show c ∉ timeChars by rw [hc]; decide), hc]
    exact ⟨s', heq, by rw [hprev]; exact hnul, hticks, hput⟩
  rw [if_neg hc]
  by_cases ht : c ∈ timeChars
  · -- the length comes back cut down to what is left
    have hcut : ∀ n : Int, 0 ≤ n → 0 ≤ (if n < len - s.i - 1 then n else len - s.i - 1)
        ∧ (if n < len - s.i - 1 then n else len - s.i - 1) ≤ n
        ∧ min (s.i + if n < len - s.i - 1 then n else len - s.i - 1) (len - 1)
          = min (s.i + n) (len - 1) := by
      intro n h0
      by_cases hn : n < len - s.i - 1
      · rw [if_pos hn]
        exact ⟨h0, Int.le_refl n, rfl⟩
      · rw [if_neg hn]
        omega
    obtain ⟨s', heq, hprev, hticks, hput⟩ :=
      Loop.advance_spec h hi htext hint (s.ticks + 1) hcut
    rw [if_pos ht, if_pos ht, logGetTimeFmt_eq call _ ht]
    exact ⟨s', heq, by rw [hprev]; exact hnul, hticks, hput⟩
  rw [if_neg ht, if_neg ht]
  by_cases hf : c = 'f'
  · rw [hf] at htext ⊢
    obtain ⟨s', heq, hprev, hticks, hput⟩ := Loop.advance_whole h hi htext hint s.ticks
    exact ⟨s', heq, by rw [hprev]; exact hnul, hticks, hput⟩
  rw [if_neg hf]
  by_cases hl : c = 'l'
  · rw [hl] at htext ⊢
    obtain ⟨s', heq, hprev, hticks, hput⟩ := Loop.advance_whole h hi htext hint s.ticks
    exact ⟨s', heq, by rw [hprev]; exact hnul, hticks, hput⟩
  rw [if_neg hl]
  by_cases hL : c = 'L'
  · obtain ⟨name, hname⟩ := levelToString_some hlevel
    have hconv : conversion call (call.clock s.ticks) 'L' = name := by
      show (levelToString call.level).getD [] = name
      rw [hname, Option.getD_some]
    rw [hL, hconv] at htext ⊢
    obtain ⟨s', heq, hprev, hticks, hput⟩ := Loop.advance_whole h hi htext hint s.ticks
    rw [if_pos rfl, hname, Option.bind_some]
    exact ⟨s', heq, by rw [hprev]; exact hnul, hticks, hput⟩
  · obtain ⟨s', heq, hprev, hticks, hput⟩ := Loop.put_spec h hi hint c c
    rw [if_neg hL, conversion_other call _ ht hf hl hL]
    exact ⟨s', heq, by rw [hprev]; exact hc, hticks, hput⟩

/-- A round without one: the character, or a `%` that is open now. -/
theorem fmtStep_plain (h : PutOut len before out s.i s.mem) (hi : s.i < len - 1)
    (hint : len < 2 ^ 31) (hp : s.prev ≠ '%') :
    ∃ s', fmtStep call len c s = some s' ∧ s'.prev = c ∧ s'.ticks = s.ticks
      ∧ PutOut len before (out ++ if c = '%' then [] else [c]) s'.i s'.mem := by
  rw [fmtStep]
  by_cases hc : c = '%'
  · rw [if_neg (fun hne => hne.2 hc), if_pos ⟨hp, hc⟩, if_pos hc, List.append_nil]
    exact ⟨_, rfl, rfl, rfl, h⟩
  · rw [if_pos ⟨hp, hc⟩, if_neg hc]
    exact Loop.put_spec h hi hint c c

/-- **ONE ROUND** puts out its text. -/
theorem fmtStep_spec (hlevel : levelAll < call.level ∧ call.level < levelOff)
    (h : PutOut len before out s.i s.mem) (hi : s.i < len - 1) (hint : len < 2 ^ 31)
    (htext : out.length + (stepText call s.ticks s.prev c).length < 2 ^ 31) :
    ∃ s', fmtStep call len c s = some s' ∧ (s'.prev = '%' ↔ s.prev ≠ '%' ∧ c = '%')
      ∧ s'.ticks = stepTicks s.ticks s.prev c
      ∧ PutOut len before (out ++ stepText call s.ticks s.prev c) s'.i s'.mem := by
  rw [stepText] at htext ⊢
  rw [stepTicks]
  by_cases hp : s.prev = '%'
  · rw [if_pos hp] at htext ⊢
    obtain ⟨s', heq, hprev, hticks, hput⟩ := fmtStep_conversion hlevel h hi hint hp htext
    refine ⟨s', heq, iff_of_false hprev (fun hne => hne.1 hp), ?_, hput⟩
    rw [hticks]
    simp only [hp, true_and]
  · rw [if_neg hp, if_neg (show ¬ (s.prev = '%' ∧ c ∈ timeChars) from fun hpc => hp hpc.1)]
    obtain ⟨s', heq, hprev, hticks, hput⟩ := fmtStep_plain h hi hint hp
    exact ⟨s', heq, by rw [hprev]; exact (and_iff_right hp).symm, hticks, hput⟩

/-- **THE LOOP** puts out the text of the format: all of it, or what fits
    before the index runs past the buffer. -/
theorem fmtLoop_spec (hlevel : levelAll < call.level ∧ call.level < levelOff)
    (hint : len < 2 ^ 31) : ∀ (fmt : List Char) (s : Loop) {out : List Char},
      PutOut len before out s.i s.mem →
      (out ++ expand call s.ticks (pending s.prev fmt)).length < 2 ^ 31 →
      ∃ s', fmtLoop call len fmt s = some s'
        ∧ PutOut len before (out ++ expand call s.ticks (pending s.prev fmt)) s'.i s'.mem := by
  intro fmt
  induction fmt with
  | nil =>
      intro s out h _
      rw [expand_pending_nil, List.append_nil]
      exact ⟨s, rfl, h⟩
  | cons c fmt ih =>
      intro s out h htext
      rw [fmtLoop]
      by_cases hi : s.i < len - 1
      · rw [if_pos hi]
        have hstep : out.length + (stepText call s.ticks s.prev c).length < 2 ^ 31 := by
          rw [expand_pending_cons call s.ticks fmt (stepPrev_iff s.prev c), List.length_append,
            List.length_append] at htext
          omega
        obtain ⟨s1, heq, hprev, hticks, hput⟩ := fmtStep_spec hlevel h hi hint hstep
        rw [expand_pending_cons call s.ticks fmt hprev, ← List.append_assoc, ← hticks] at htext ⊢
        rw [heq, Option.bind_some]
        exact ih s1 hput htext
      · rw [if_neg hi]
        exact ⟨s, rfl, h.full (by omega) _⟩

end Rounds

-- ── The result ───────────────────────────────────────────────────────────────

theorem nul_not_mem_padded (w : Nat) (x : Int) : nul ∉ padded w x := by
  rw [padded, List.mem_append, List.mem_append, not_or, not_or]
  refine ⟨⟨?_, ?_⟩, ?_⟩
  · split
    · decide
    · decide
  · intro h
    exact absurd (List.eq_of_mem_replicate h) (by decide)
  · intro h
    exact absurd (Nat.isDigit_of_mem_toDigits (by decide) (by decide) h) (by decide)

/-- Three numbers with a separator between them. -/
theorem nul_not_mem_joined {sep : Char} (hsep : sep ≠ nul) (u v w : Nat) (x y z : Int) :
    nul ∉ padded u x ++ sep :: padded v y ++ sep :: padded w z := by
  simp only [List.mem_append, List.mem_cons, not_or]
  exact ⟨⟨nul_not_mem_padded u x, hsep.symm, nul_not_mem_padded v y⟩, hsep.symm,
    nul_not_mem_padded w z⟩

theorem nul_not_mem_levelToString (level : Int) : nul ∉ (levelToString level).getD [] := by
  rw [levelToString.eq_def]
  split
  all_goals decide

theorem nul_not_mem_conversion (call : Call) (tm : Tm) {c : Char} (hc : nul ≠ c) :
    nul ∉ conversion call tm c := by
  rw [conversion.eq_def]
  split
  · decide
  · exact nul_not_mem_padded _ _
  · exact nul_not_mem_padded _ _
  · exact nul_not_mem_padded _ _
  · exact nul_not_mem_joined (by decide) _ _ _ _ _ _
  · exact nul_not_mem_padded _ _
  · exact nul_not_mem_padded _ _
  · exact nul_not_mem_padded _ _
  · exact nul_not_mem_joined (by decide) _ _ _ _ _ _
  · exact call.filename.noNul
  · exact nul_not_mem_padded _ _
  · exact nul_not_mem_levelToString _
  · exact fun h => hc (List.mem_singleton.mp h)

/-- The text of a format is a C string. -/
theorem nul_not_mem_expand (call : Call) : ∀ {k : Nat} {fmt : List Char}, nul ∉ fmt →
    nul ∉ expand call k fmt := by
  intro k fmt
  induction k, fmt using expand.induct with
  | case1 k => exact fun h => h
  | case2 k => exact fun _ => List.not_mem_nil
  | case3 k c fmt ih =>
      intro h
      rw [List.mem_cons, List.mem_cons, not_or, not_or] at h
      rw [expand, List.mem_append, not_or]
      exact ⟨nul_not_mem_conversion call _ h.2.1, ih h.2.2⟩
  | case4 k c fmt h1 h2 ih =>
      intro h
      rw [List.mem_cons, not_or] at h
      have hc : c ≠ '%' := by
        cases fmt with
        | nil => exact fun hc => h1 hc rfl
        | cons d fmt => exact fun hc => h2 d fmt hc rfl
      rw [expand_cons call k fmt hc, List.mem_cons, not_or]
      exact ⟨h.1, ih h.2⟩

/-- **THE HEAD OF A LOG LINE**: the buffer of `len` bytes gets the first
    `len - 1` characters of the text of the format and a terminator, and
    nothing outside it is written. -/
theorem log_fmt_tostring_expand (call : Call) (fmt : CString) (mem : Int → Char) (len : Int)
    (hlen : 1 ≤ len) (hint : len < 2 ^ 31)
    (hlevel : levelAll < call.level ∧ call.level < levelOff)
    (htext : (expand call 0 fmt.chars).length < 2 ^ 31) :
    nul ∉ expand call 0 fmt.chars
      ∧ ∃ mem', logFmtTostring call fmt mem len = some mem'
        ∧ Holds mem' 0 ((expand call 0 fmt.chars).take (len - 1).toNat ++ [nul])
        ∧ ∀ q, q < 0 ∨ len ≤ q → mem' q = mem q := by
  have hopen : pending nul fmt.chars = fmt.chars := if_neg (by decide)
  obtain ⟨s, heq, hput⟩ := fmtLoop_spec hlevel hint fmt.chars
    { i := 0, prev := nul, ticks := 0, mem := mem } (PutOut.start len mem)
    (by rw [hopen]; exact htext)
  rw [hopen, List.nil_append] at hput
  obtain ⟨mem', hstore, hholds, houtside⟩ := hput.terminate hlen nul
  refine ⟨nul_not_mem_expand call fmt.noNul, mem', ?_, hholds, houtside⟩
  rw [logFmtTostring, heq, Option.bind_some, hstore]

/-- The default format in a buffer of 8 bytes: cut off in the middle of the
    date. -/
theorem log_fmt_tostring_expand_cut :
    ∃ (call : Call) (fmt : CString) (mem' : Int → Char), fmt.chars = "[%F %T] %L: ".toList
      ∧ logFmtTostring call fmt (fun _ => 'x') 8 = some mem'
      ∧ Holds mem' 0 ("[2025-0".toList ++ [nul]) := by
  let tm : Tm :=
    { sec := 5, min := 4, hour := 13, mday := 2, mon := 0, year := 125
      mon_range := by decide
      year_range := by decide }
  let call : Call :=
    { level := 2, filename := ⟨"main.c".toList, by decide⟩, lineno := 42, clock := fun _ => tm }
  let fmt : CString := ⟨"[%F %T] %L: ".toList, by decide⟩
  obtain ⟨-, mem', heq, hholds, -⟩ := log_fmt_tostring_expand call fmt (fun _ => 'x') 8
    (by decide) (by decide) (by decide) (by decide +kernel)
  have hcut : (expand call 0 fmt.chars).take ((8 : Int) - 1).toNat = "[2025-0".toList := by
    decide +kernel
  rw [hcut] at hholds
  exact ⟨call, fmt, mem', rfl, heq, hholds⟩

end LogFmt
