import Mathlib.Data.List.TakeWhile
import Os161.Console.Editing

set_option autoImplicit false

/-!
# The buffer of `kgets`

`kgets.c` with the memory that its buffer is in. The characters before `pos` are the line that is
typed; the keys move `pos`, and only printable characters, `^R` and the end of the function write.

* `KgetsState.kgets`: the code, with its erase loops.
* `KgetsState.line`: the line in the buffer; `KgetsState.line_key`: a key edits it as `Key.edit`
  says.
* `KgetsState.Within`: what the function has written, and where.
* **`kgets_spec`**: the string that is left in the buffer.
-/

namespace Os161

/-- What goes to the console. -/
inductive Echo
  | putch (ch : UInt8)
  | beep
  deriving DecidableEq

/-- The memory, `pos`, what went to the console and which bytes were written. -/
structure KgetsState where
  mem : ℕ → UInt8
  pos : ℕ
  echo : List Echo
  writes : List ℕ

namespace KgetsState

/-- `putch`. -/
def putch (s : KgetsState) (ch : UInt8) : KgetsState := { s with echo := s.echo ++ [.putch ch] }

/-- The store of a character. -/
def store (s : KgetsState) (a : ℕ) (ch : UInt8) : KgetsState :=
  { s with mem := Function.update s.mem a ch, writes := s.writes ++ [a] }

/-- `backsp`, and `pos--`. -/
def backsp (s : KgetsState) : KgetsState :=
  { ((s.putch 8).putch 32).putch 8 with pos := s.pos - 1 }

/-- The line that is typed, at `buf`. -/
def line (s : KgetsState) (buf : ℕ) : List UInt8 := (List.range s.pos).map fun i => s.mem (buf + i)

/-- `beep`. -/
def beep (s : KgetsState) : KgetsState := { s with echo := s.echo ++ [.beep] }

/-- `kprintf("^R\\n%s", buf)`; the string ends at `pos` at the latest. -/
def reprint (s : KgetsState) (buf : ℕ) : KgetsState :=
  { s with echo := s.echo ++ ([94, 82, 10] ++ (s.line buf).takeWhile (· ≠ 0)).map .putch }

/-- `while (pos > 0 && p(buf[pos-1]))` characters are erased; the first argument is `pos`. -/
def eraseWhile (buf : ℕ) (p : UInt8 → Bool) : ℕ → KgetsState → KgetsState
  | 0, s => s
  | n + 1, s => if p (s.mem (buf + n)) then eraseWhile buf p n s.backsp else s

/-- The loop of `kgets` once, and whether it ends there. -/
def key (buf maxlen : ℕ) (s : KgetsState) (ch : UInt8) : KgetsState × Bool :=
  if ch = 10 ∨ ch = 13 then (s.putch 10, true)
  else if 32 ≤ ch ∧ ch < 127 ∧ s.pos < wsub maxlen 1 then
    ({ (s.putch ch).store (buf + s.pos) ch with pos := s.pos + 1 }, false)
  else if (ch = 8 ∨ ch = 127) ∧ 0 < s.pos then (s.backsp, false)
  else if ch = 3 then ({ ((s.putch 94).putch 67).putch 10 with pos := 0 }, true)
  else if ch = 18 then ((s.store (buf + s.pos) 0).reprint buf, false)
  else if ch = 21 then (eraseWhile buf (fun _ => true) s.pos s, false)
  else if ch = 23 then
    let s := eraseWhile buf (· = 32) s.pos s
    (eraseWhile buf (· ≠ 32) s.pos s, false)
  else (s.beep, false)

/-- The loop, with the characters that are left when it ends; `none` waits for more. -/
def loop (buf maxlen : ℕ) : List UInt8 → KgetsState → Option (KgetsState × List UInt8)
  | [], _ => none
  | ch :: input, s =>
    let (s, ends) := s.key buf maxlen ch
    if ends then some (s, input) else loop buf maxlen input s

/-- `kgets`, as the memory is before. -/
def kgets (buf maxlen : ℕ) (input : List UInt8) (mem : ℕ → UInt8) :
    Option (KgetsState × List UInt8) := do
  let (s, rest) ← loop buf maxlen input ⟨mem, 0, [], []⟩
  return (s.store (buf + s.pos) 0, rest)

/-- **What the function has written**: only bytes of the buffer, and the others are as they were. -/
structure Within (buf maxlen : ℕ) (mem : ℕ → UInt8) (s : KgetsState) : Prop where
  pos : s.pos < maxlen
  writes : ∀ a ∈ s.writes, buf ≤ a ∧ a < buf + maxlen
  frame : ∀ a ∉ s.writes, s.mem a = mem a

section Lemmas

variable {s : KgetsState} {buf maxlen n : ℕ} {mem : ℕ → UInt8} {ch : UInt8} {p : UInt8 → Bool}

@[simp] theorem length_line : (s.line buf).length = s.pos := by simp [line]

/-- The line depends on the position and the bytes before it. -/
theorem line_congr {t : KgetsState} (hpos : t.pos = s.pos)
    (hmem : ∀ i < s.pos, t.mem (buf + i) = s.mem (buf + i)) : t.line buf = s.line buf := by
  unfold line
  rw [hpos]
  exact List.map_congr_left fun i hi => hmem i (List.mem_range.mp hi)

theorem line_succ (h : s.pos = n + 1) :
    s.line buf = { s with pos := n }.line buf ++ [s.mem (buf + n)] := by
  unfold line
  rw [h, List.range_succ, List.map_append]
  rfl

/-- A store at `pos` is behind the line. -/
theorem line_store : (s.store (buf + s.pos) ch).line buf = s.line buf := by
  refine line_congr rfl fun i hi => ?_
  change Function.update s.mem (buf + s.pos) ch (buf + i) = _
  rw [Function.update_of_ne (by omega)]

theorem line_append :
    { s.store (buf + s.pos) ch with pos := s.pos + 1 }.line buf = s.line buf ++ [ch] := by
  rw [line_succ rfl]
  change (s.store (buf + s.pos) ch).line buf ++ [Function.update s.mem (buf + s.pos) ch _] = _
  rw [line_store, Function.update_self]

theorem line_backsp : s.backsp.line buf = (s.line buf).dropLast := by
  have hline : s.backsp.line buf = { s with pos := s.pos - 1 }.line buf := rfl
  rw [hline]
  rcases Nat.eq_zero_or_pos s.pos with h | h
  · rw [h]
    unfold line
    rw [h]
    rfl
  · obtain ⟨n, hn⟩ : ∃ n, s.pos = n + 1 := ⟨s.pos - 1, by omega⟩
    rw [line_succ hn, List.dropLast_concat, hn]
    rfl

/-- **An erase loop** drops the characters at the end for which its condition holds. -/
theorem line_eraseWhile (h : s.pos = n) :
    (eraseWhile buf p n s).line buf = ((s.line buf).reverse.dropWhile p).reverse := by
  induction n generalizing s with
  | zero =>
    have hnil : s.line buf = [] := List.length_eq_zero_iff.mp (length_line.trans h)
    rw [eraseWhile, hnil]
    rfl
  | succ n ih =>
    rw [eraseWhile, line_succ h, List.reverse_concat, List.dropWhile_cons]
    split_ifs with hp
    · have hdrop : { s with pos := n }.line buf = s.backsp.line buf := by
        rw [line_backsp, line_succ h, List.dropLast_concat]
      rw [hdrop]
      exact ih (congrArg (· - 1) h)
    · rw [← List.reverse_concat, List.reverse_reverse, line_succ h]

/-- It moves `pos` down. -/
theorem pos_eraseWhile (h : s.pos = n) : (eraseWhile buf p n s).pos ≤ s.pos := by
  induction n generalizing s with
  | zero => exact le_refl _
  | succ n ih =>
    rw [eraseWhile]
    split_ifs
    · exact (ih (congrArg (· - 1) h)).trans (Nat.sub_le _ _)
    · exact le_refl _

theorem mem_eraseWhile : (eraseWhile buf p n s).mem = s.mem ∧
    (eraseWhile buf p n s).writes = s.writes := by
  induction n generalizing s with
  | zero => exact ⟨rfl, rfl⟩
  | succ n ih =>
    rw [eraseWhile]
    split_ifs
    · exact ih
    · exact ⟨rfl, rfl⟩

/-! ### Where the function writes -/

namespace Within

/-- A key that does not write. -/
theorem of_unchanged {t : KgetsState} (h : Within buf maxlen mem s) (hpos : t.pos ≤ s.pos)
    (hmem : t.mem = s.mem) (hwrites : t.writes = s.writes) : Within buf maxlen mem t where
  pos := hpos.trans_lt h.pos
  writes := hwrites ▸ h.writes
  frame := by
    rw [hwrites, hmem]
    exact h.frame

theorem store (h : Within buf maxlen mem s) (hn : n < maxlen) :
    Within buf maxlen mem (s.store (buf + n) ch) where
  pos := h.pos
  writes a ha := by
    rcases List.mem_append.mp ha with ha | ha
    · exact h.writes a ha
    · rw [List.mem_singleton.mp ha]
      omega
  frame a ha := by
    rw [KgetsState.store, List.mem_append, not_or, List.mem_singleton] at ha
    change Function.update s.mem _ ch a = _
    rw [Function.update_of_ne ha.2]
    exact h.frame a ha.1

theorem eraseWhile (h : Within buf maxlen mem s) :
    Within buf maxlen mem (eraseWhile buf p s.pos s) :=
  h.of_unchanged (pos_eraseWhile rfl) mem_eraseWhile.1 mem_eraseWhile.2

/-- The bytes outside the buffer. -/
theorem outside (h : Within buf maxlen mem s) {a : ℕ} (ha : a < buf ∨ buf + maxlen ≤ a) :
    s.mem a = mem a :=
  h.frame a fun hw => by
    have := h.writes a hw
    omega

end Within

/-! ### One key -/

/-- The loop once, by what the key asks for. -/
theorem key_eq (hpos : 0 < maxlen) (hlt : maxlen < wordSize) :
    s.key buf maxlen ch = match Key.of ch with
      | .eol => (s.putch 10, true)
      | .char _ => if s.pos + 1 < maxlen then
          ({ (s.putch ch).store (buf + s.pos) ch with pos := s.pos + 1 }, false)
        else (s.beep, false)
      | .backspace => if 0 < s.pos then (s.backsp, false) else (s.beep, false)
      | .abort => ({ ((s.putch 94).putch 67).putch 10 with pos := 0 }, true)
      | .eraseLine => (KgetsState.eraseWhile buf (fun _ => true) s.pos s, false)
      | .eraseWord => (KgetsState.eraseWhile buf (· ≠ 32)
          (KgetsState.eraseWhile buf (· = 32) s.pos s).pos
          (KgetsState.eraseWhile buf (· = 32) s.pos s), false)
      | .other => if ch = 18 then ((s.store (buf + s.pos) 0).reprint buf, false)
          else (s.beep, false) := by
  have hroom : s.pos < wsub maxlen 1 ↔ s.pos + 1 < maxlen := by
    rw [wsub_of_le hpos hlt]
    omega
  unfold key
  by_cases heol : ch = 10 ∨ ch = 13
  · have hk : Key.of ch = .eol := if_pos heol
    rw [if_pos heol, hk]
  rw [if_neg heol]
  by_cases hp : 32 ≤ ch ∧ ch < 127
  · have hne : ∀ c : UInt8, c < 32 ∨ c = 127 → ch ≠ c := fun _ => printable_ne hp
    rw [Key.of_printable hp]
    by_cases hr : s.pos + 1 < maxlen
    · rw [if_pos ⟨hp.1, hp.2, hroom.mpr hr⟩]
      exact (if_pos hr).symm
    · -- the keys of the other branches are no text
      rw [if_neg fun h => hr (hroom.mp h.2.2), if_neg, if_neg (hne 3 (by decide)),
        if_neg (hne 18 (by decide)), if_neg (hne 21 (by decide)), if_neg (hne 23 (by decide))]
      · exact (if_neg hr).symm
      · rintro ⟨rfl | rfl, -⟩
        · exact hne 8 (by decide) rfl
        · exact hne 127 (by decide) rfl
  rw [if_neg fun h => hp ⟨h.1, h.2.1⟩]
  have hk : Key.of ch = if ch = 8 ∨ ch = 127 then .backspace else if ch = 3 then .abort
      else if ch = 21 then .eraseLine else if ch = 23 then .eraseWord else .other := by
    unfold Key.of
    rw [if_neg heol, if_neg hp]
  rw [hk]
  by_cases hback : ch = 8 ∨ ch = 127
  · rw [if_pos hback]
    by_cases hpos : 0 < s.pos
    · rw [if_pos ⟨hback, hpos⟩]
      exact (if_pos hpos).symm
    · rw [if_neg fun h => hpos h.2]
      rcases hback with rfl | rfl
      · exact (if_neg hpos).symm
      · exact (if_neg hpos).symm
  rw [if_neg hback, if_neg fun h => hback h.1]
  by_cases habort : ch = 3
  · rw [if_pos habort, if_pos habort]
  rw [if_neg habort, if_neg habort]
  by_cases hreprint : ch = 18
  · subst hreprint
    rfl
  rw [if_neg hreprint]
  by_cases hline : ch = 21
  · rw [if_pos hline, if_pos hline]
  rw [if_neg hline, if_neg hline]
  by_cases hword : ch = 23
  · rw [if_pos hword, if_pos hword]
  rw [if_neg hword, if_neg hword]
  exact (if_neg hreprint).symm

/-- **A key edits the line**, and ends the loop if it is the end of the line or an abort. -/
theorem line_key (hpos : 0 < maxlen) (hlt : maxlen < wordSize) :
    (s.key buf maxlen ch).1.line buf = (Key.of ch).edit (fun n => n + 1 < maxlen) (s.line buf) ∧
      ((s.key buf maxlen ch).2 = true ↔ Key.of ch = .eol ∨ Key.of ch = .abort) := by
  rw [key_eq hpos hlt]
  cases hk : Key.of ch with
  | eol => exact ⟨rfl, by simp⟩
  | char c =>
    obtain ⟨rfl, -⟩ := Key.printable_of hk
    rw [Key.edit, length_line]
    by_cases hroom : s.pos + 1 < maxlen
    · simp only [if_pos hroom, if_pos (decide_eq_true hroom)]
      exact ⟨line_append (s := s.putch ch), by simp⟩
    · simp only [if_neg hroom, decide_eq_false hroom]
      exact ⟨rfl, by simp⟩
  | backspace =>
    by_cases hzero : 0 < s.pos
    · simp only [if_pos hzero]
      exact ⟨line_backsp, by simp⟩
    · simp only [if_neg hzero]
      have hnil : s.line buf = [] := List.length_eq_zero_iff.mp (by rw [length_line]; omega)
      refine ⟨?_, by simp⟩
      change s.line buf = (s.line buf).dropLast
      rw [hnil]
      rfl
  | abort => exact ⟨rfl, by simp⟩
  | eraseLine =>
    refine ⟨?_, by simp⟩
    change (KgetsState.eraseWhile buf (fun _ => true) s.pos s).line buf = []
    rw [line_eraseWhile rfl, List.dropWhile_eq_nil_iff.mpr fun _ _ => rfl]
    rfl
  | eraseWord =>
    refine ⟨?_, by simp⟩
    change (KgetsState.eraseWhile buf _ _ _).line buf = Os161.eraseWord _
    rw [line_eraseWhile rfl, line_eraseWhile rfl, List.reverse_reverse]
    rfl
  | other =>
    by_cases hreprint : ch = 18
    · simp only [if_pos hreprint]
      exact ⟨line_store, by simp⟩
    · simp only [if_neg hreprint]
      exact ⟨rfl, by simp⟩

/-- It writes in the buffer. -/
theorem Within.key (h : Within buf maxlen mem s) (hpos : 0 < maxlen) (hlt : maxlen < wordSize) :
    Within buf maxlen mem (s.key buf maxlen ch).1 := by
  have hsame : ∀ t : KgetsState, t.pos = s.pos → t.mem = s.mem → t.writes = s.writes →
      Within buf maxlen mem t := fun t hp => h.of_unchanged hp.le
  rw [key_eq hpos hlt]
  cases Key.of ch with
  | eol => exact hsame _ rfl rfl rfl
  | char c =>
    by_cases hroom : s.pos + 1 < maxlen
    · simp only [if_pos hroom]
      have hst : Within buf maxlen mem ((s.putch ch).store (buf + s.pos) ch) :=
        (hsame (s.putch ch) rfl rfl rfl).store h.pos
      exact ⟨hroom, hst.writes, hst.frame⟩
    · simp only [if_neg hroom]
      exact hsame _ rfl rfl rfl
  | backspace =>
    by_cases hzero : 0 < s.pos
    · simp only [if_pos hzero]
      exact h.of_unchanged (Nat.sub_le _ _) rfl rfl
    · simp only [if_neg hzero]
      exact hsame _ rfl rfl rfl
  | abort => exact h.of_unchanged (Nat.zero_le _) rfl rfl
  | eraseLine => exact h.eraseWhile
  | eraseWord => exact h.eraseWhile.eraseWhile
  | other =>
    by_cases hreprint : ch = 18
    · simp only [if_pos hreprint]
      have hst : Within buf maxlen mem (s.store (buf + s.pos) 0) := h.store h.pos
      exact ⟨hst.pos, hst.writes, hst.frame⟩
    · simp only [if_neg hreprint]
      exact hsame _ rfl rfl rfl

end Lemmas

end KgetsState

/-- **The end of the input of one line**: the characters before the first end of line or abort, and
that one. -/
structure EndsAt (input typed : List UInt8) (last : UInt8) (rest : List UInt8) : Prop where
  input : input = typed ++ last :: rest
  typed : ∀ ch ∈ typed, ¬ (Key.of ch = .eol ∨ Key.of ch = .abort)
  last : Key.of last = .eol ∨ Key.of last = .abort

/-- The line after one more character, in a buffer of `maxlen` bytes. -/
def editLine (maxlen : ℕ) (line : List UInt8) (ch : UInt8) : List UInt8 :=
  (Key.of ch).edit (fun n => n + 1 < maxlen) line

/-- The string at `buf`, with its terminator. -/
structure IsString (mem : ℕ → UInt8) (buf : ℕ) (str : List UInt8) : Prop where
  chars : ∀ i (h : i < str.length), mem (buf + i) = str.get ⟨i, h⟩
  nul : mem (buf + str.length) = 0
  text : 0 ∉ str

section Spec

open KgetsState

variable {s : KgetsState} {buf maxlen : ℕ} {mem : ℕ → UInt8} {input : List UInt8}

/-- **The loop** folds the editing operations over the characters up to the end. -/
theorem loop_spec (hpos : 0 < maxlen) (hlt : maxlen < wordSize)
    (hend : ∃ ch ∈ input, ch = 10 ∨ ch = 13) (h : Within buf maxlen mem s) :
    ∃ t typed last rest, loop buf maxlen input s = some (t, rest) ∧ EndsAt input typed last rest ∧
      t.line buf = (typed ++ [last]).foldl (editLine maxlen) (s.line buf) ∧
      Within buf maxlen mem t := by
  induction input generalizing s with
  | nil =>
    obtain ⟨_, hch, -⟩ := hend
    cases hch
  | cons ch input ih =>
    obtain ⟨hline, hends⟩ := @line_key s buf maxlen ch hpos hlt
    have hkey : Within buf maxlen mem (s.key buf maxlen ch).1 := h.key hpos hlt
    rw [loop]
    by_cases hk : Key.of ch = .eol ∨ Key.of ch = .abort
    · exact ⟨_, [], ch, input, if_pos (hends.mpr hk), ⟨rfl, fun _ hm => (by cases hm), hk⟩, hline,
        hkey⟩
    · have heol : ∃ ch ∈ input, ch = 10 ∨ ch = 13 := by
        obtain ⟨c, hc, hend⟩ := hend
        rcases List.mem_cons.mp hc with rfl | hc
        · exact absurd (.inl (if_pos hend)) hk
        · exact ⟨c, hc, hend⟩
      obtain ⟨t, typed, last, rest, hloop, hin, hfold, hw⟩ := ih heol hkey
      refine ⟨t, ch :: typed, last, rest, (if_neg fun hend => hk (hends.mp hend)).trans hloop,
        ⟨congrArg (ch :: ·) hin.input, List.forall_mem_cons.mpr ⟨hk, hin.typed⟩, hin.last⟩, ?_, hw⟩
      rw [hfold, hline]
      rfl

theorem foldl_editLine_printable {typed line : List UInt8}
    (h : ∀ c ∈ line, 32 ≤ c ∧ c < 127) :
    ∀ c ∈ typed.foldl (editLine maxlen) line, 32 ≤ c ∧ c < 127 := by
  induction typed generalizing line with
  | nil => exact h
  | cons ch typed ih => exact ih (Key.edit_printable h)

/-- The pure model of the function leaves the same line. -/
theorem kgets_eq_foldl {typed rest : List UInt8} {last : UInt8} (hpos : 0 < maxlen)
    (hlt : maxlen < wordSize) (h : EndsAt input typed last rest) :
    Os161.kgets maxlen input [] = some ((typed ++ [last]).foldl (editLine maxlen) []) := by
  have hfold : ∀ (typed line : List UInt8),
      (∀ ch ∈ typed, ¬ (Key.of ch = .eol ∨ Key.of ch = .abort)) →
        editedLine (fun n => n + 1 < maxlen) (typed ++ last :: rest) line =
          some ((typed ++ [last]).foldl (editLine maxlen) line) := by
    intro typed
    induction typed with
    | nil => exact fun line _ => if_pos h.last
    | cons ch typed ih =>
      intro line htyped
      obtain ⟨hch, htyped⟩ := List.forall_mem_cons.mp htyped
      exact (if_neg hch).trans (ih _ htyped)
  rw [kgets_eq_editedLine hpos hlt, h.input]
  exact hfold typed [] h.typed

end Spec

/-- **What `kgets` leaves in its buffer**, for every input with an end of line: the string of the
line as it was edited up to its end or an abort, shorter than `maxlen`. Nothing outside the buffer
is written, and the characters after the end of the line are still to be read. -/
theorem kgets_spec (buf : ℕ) (maxlen : Register) (input : List UInt8) (mem : ℕ → UInt8)
    (hpos : 1 ≤ maxlen.val) (hend : ∃ ch ∈ input, ch = 10 ∨ ch = 13) :
    ∃ s typed last rest, KgetsState.kgets buf maxlen.val input mem = some (s, rest) ∧
      EndsAt input typed last rest ∧
      IsString s.mem buf ((typed ++ [last]).foldl (editLine maxlen.val) []) ∧
      ((typed ++ [last]).foldl (editLine maxlen.val) []).length < maxlen.val ∧
      (∀ a ∈ s.writes, buf ≤ a ∧ a < buf + maxlen.val) ∧
      ∀ a, a < buf ∨ buf + maxlen.val ≤ a → s.mem a = mem a := by
  obtain ⟨t, typed, last, rest, hloop, hin, hline, hw⟩ :=
    @loop_spec ⟨mem, 0, [], []⟩ buf maxlen.val mem input hpos maxlen.isLt hend
      ⟨hpos, fun a ha => (by cases ha), fun _ _ => rfl⟩
  replace hline : t.line buf = (typed ++ [last]).foldl (editLine maxlen.val) [] := hline
  have hlen : (t.line buf).length = t.pos := KgetsState.length_line
  have hend : KgetsState.Within buf maxlen.val mem (t.store (buf + t.pos) 0) := hw.store hw.pos
  refine ⟨t.store (buf + t.pos) 0, typed, last, rest, ?_, hin, ?_, ?_, hend.writes, fun a =>
    hend.outside⟩
  · rw [KgetsState.kgets, hloop]
    rfl
  · rw [← hline]
    refine ⟨fun i hi => ?_, ?_, fun hzero => ?_⟩
    · change Function.update t.mem (buf + t.pos) 0 (buf + i) = _
      rw [Function.update_of_ne (by omega)]
      simp [KgetsState.line]
    · change Function.update t.mem (buf + t.pos) 0 (buf + (t.line buf).length) = 0
      rw [hlen, Function.update_self]
    · rw [hline] at hzero
      exact absurd (foldl_editLine_printable (fun _ hc => by cases hc) 0 hzero).1 (by decide)
  · rw [← hline]
    exact hlen.trans_lt hw.pos

/-- A buffer of three bytes; `ab`, a backspace, `cd` and the end of the line are typed. -/
theorem kgets_spec_ac : ∃ s typed last rest,
    KgetsState.kgets 16 3 [97, 98, 8, 99, 100, 10, 97] (fun _ => 255) = some (s, rest) ∧
      EndsAt [97, 98, 8, 99, 100, 10, 97] typed last rest ∧
      IsString s.mem 16 ((typed ++ [last]).foldl (editLine 3) []) :=
  have hlt : 3 < wordSize := by decide
  have ⟨s, typed, last, rest, hs, hin, hstr, _⟩ := kgets_spec 16 ⟨3, hlt⟩
    [97, 98, 8, 99, 100, 10, 97] (fun _ => 255) (show 1 ≤ 3 by decide) ⟨10, by decide, .inl rfl⟩
  ⟨s, typed, last, rest, hs, hin, hstr⟩

example : (KgetsState.kgets 16 3 [97, 98, 8, 99, 100, 10, 97] fun _ => 255).map
    (fun r => (r.1.mem 16, r.1.mem 17, r.1.mem 18, r.1.writes, r.2)) =
      some (97, 99, 0, [16, 17, 17, 18], [97]) := by decide

end Os161
