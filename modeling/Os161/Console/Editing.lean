import Os161.Syscall.StdIo

set_option autoImplicit false

/-!
# Line editing

What the keys of the console do to the line that is typed, and the system call that returns one
character of it. `sys_read` gives `kgets` a buffer of one byte, in which the terminator is all that
has room.

* `Key.of`, `Key.edit`, `editedLine`: the editing rules.
* `kgets_eq_editedLine`: `kgets` follows them, with room for less than `maxlen` characters.
* **`sys_read_never`**: no read from the console delivers a character that was typed.
-/

namespace Os161

/-- What a typed character asks for. -/
inductive Key
  | eol
  | char (ch : UInt8)
  | backspace
  | abort
  | eraseLine
  | eraseWord
  | other
  deriving DecidableEq

/-- The keys; only the normal 7-bit ascii is text. -/
def Key.of (ch : UInt8) : Key :=
  if ch = 10 ∨ ch = 13 then .eol
  else if 32 ≤ ch ∧ ch < 127 then .char ch
  else if ch = 8 ∨ ch = 127 then .backspace
  else if ch = 3 then .abort
  else if ch = 21 then .eraseLine
  else if ch = 23 then .eraseWord
  else .other

/-- The line without the spaces at its end and the word before them. -/
def eraseWord (line : List UInt8) : List UInt8 :=
  ((line.reverse.dropWhile (· = 32)).dropWhile (· ≠ 32)).reverse

/-- The line after a key; `room` says for which lengths another character fits. -/
def Key.edit (room : ℕ → Bool) (line : List UInt8) : Key → List UInt8
  | .char ch => if room line.length then line ++ [ch] else line
  | .backspace => line.dropLast
  | .eraseLine | .abort => []
  | .eraseWord => Os161.eraseWord line
  | .eol | .other => line

/-- **The edited line** at the first end of line or abort of the input, if it is there. -/
def editedLine (room : ℕ → Bool) : (input line : List UInt8) → Option (List UInt8)
  | [], _ => none
  | ch :: input, line =>
    if Key.of ch = .eol ∨ Key.of ch = .abort then some ((Key.of ch).edit room line)
    else editedLine room input ((Key.of ch).edit room line)

/-- **What a read of the console owes**: the first character of the line is stored, and the result is
the number of bytes stored. -/
def Delivers (buf : Register) (line : List UInt8) (r : Option Outcome) : Prop :=
  ∃ o ch, r = some o ∧ line.head? = some ch ∧ o.writes = [(buf.val, ch)] ∧
    o.result = .ok o.writes.length

section Lemmas

variable {room : ℕ → Bool} {input line tmp : List UInt8} {ch : UInt8} {maxlen : ℕ}
  {m : Machine} {as : Addrspace} {buf count : Register}

/-- Text is no control character. -/
theorem printable_ne {c : UInt8} (h : 32 ≤ ch ∧ ch < 127) (hc : c < 32 ∨ c = 127) : ch ≠ c := by
  rintro rfl
  rcases hc with hc | rfl
  · exact absurd h.1 (UInt8.not_le.mpr hc)
  · exact absurd h.2 (UInt8.lt_irrefl _)

theorem Key.of_printable (h : 32 ≤ ch ∧ ch < 127) : Key.of ch = .char ch := by
  have hne : ∀ c : UInt8, c < 32 ∨ c = 127 → ch ≠ c := fun _ => printable_ne h
  unfold Key.of
  rw [if_neg (by simp [hne 10, hne 13]), if_pos h]

/-- A key that is text. -/
theorem Key.printable_of {c : UInt8} (h : Key.of ch = .char c) : ch = c ∧ 32 ≤ ch ∧ ch < 127 := by
  unfold Key.of at h
  split_ifs at h with h₁ h₂
  exact ⟨Key.char.inj h, h₂⟩

/-- **The edited line is text.** -/
theorem Key.edit_printable (h : ∀ c ∈ line, 32 ≤ c ∧ c < 127) :
    ∀ c ∈ (Key.of ch).edit room line, 32 ≤ c ∧ c < 127 := by
  cases hk : Key.of ch with
  | char c =>
    intro d hd
    unfold Key.edit at hd
    split_ifs at hd
    · rcases List.mem_append.mp hd with hd | hd
      · exact h d hd
      · obtain ⟨rfl, hp⟩ := Key.printable_of hk
        rwa [List.mem_singleton.mp hd]
    · exact h d hd
  | backspace => exact fun c hc => h c (List.mem_of_mem_dropLast hc)
  | eraseWord =>
    intro c hc
    refine h c (List.mem_reverse.mp ?_)
    exact List.dropWhile_subset _ (List.dropWhile_subset _ (List.mem_reverse.mp hc))
  | eraseLine | abort => exact fun c hc => by cases hc
  | eol | other => exact h

theorem editedLine_printable (hline : ∀ c ∈ line, 32 ≤ c ∧ c < 127)
    (h : editedLine room input line = some tmp) : ∀ c ∈ tmp, 32 ≤ c ∧ c < 127 := by
  induction input generalizing line with
  | nil => cases h
  | cons ch input ih =>
    rw [editedLine] at h
    split_ifs at h
    · cases h
      exact Key.edit_printable hline
    · exact ih (Key.edit_printable hline) h

/-- Without room the line stays empty. -/
theorem editedLine_noRoom (h : editedLine (fun _ => false) input [] = some tmp) : tmp = [] := by
  have hedit : ∀ k : Key, k.edit (fun _ => false) [] = [] := by
    intro k
    cases k <;> rfl
  induction input with
  | nil => cases h
  | cons ch input ih =>
    rw [editedLine, hedit] at h
    split_ifs at h
    · exact (Option.some.inj h).symm
    · exact ih h

/-- Where the line ends does not depend on the room. -/
theorem editedLine_isSome (room room' : ℕ → Bool) (line line' : List UInt8) :
    (editedLine room input line).isSome = (editedLine room' input line').isSome := by
  induction input generalizing line line' with
  | nil => rfl
  | cons ch input ih =>
    rw [editedLine, editedLine]
    split_ifs
    · rfl
    · exact ih _ _

/-- A key that ends nothing. -/
theorem editedLine_cons {k : Key} (hk : Key.of ch = k) (heol : k ≠ .eol) (habort : k ≠ .abort) :
    editedLine room (ch :: input) line = editedLine room input (k.edit room line) := by
  rw [editedLine, hk, if_neg (by simp [heol, habort])]

/-- **`kgets` follows the editing rules**, with room for less than `maxlen` characters. -/
theorem kgets_eq_editedLine (hpos : 0 < maxlen) (hlt : maxlen < wordSize) :
    kgets maxlen input line = editedLine (fun n => n + 1 < maxlen) input line := by
  have hroom : ∀ n, n < wsub maxlen 1 ↔ n + 1 < maxlen := by
    intro n
    rw [wsub_of_le hpos hlt]
    omega
  induction input generalizing line with
  | nil => rfl
  | cons ch input ih =>
    by_cases heol : ch = 10 ∨ ch = 13
    · have hk : Key.of ch = .eol := if_pos heol
      rw [kgets, if_pos heol, editedLine, hk, if_pos (.inl rfl)]
      rfl
    rw [kgets, if_neg heol]
    by_cases hp : 32 ≤ ch ∧ ch < 127
    · have hne : ∀ c : UInt8, c < 32 ∨ c = 127 → ch ≠ c := fun _ => printable_ne hp
      rw [editedLine_cons (Key.of_printable hp) (by simp) (by simp), Key.edit]
      by_cases hr : line.length < wsub maxlen 1
      · rw [if_pos ⟨hp.1, hp.2, hr⟩, ih, if_pos (decide_eq_true ((hroom _).mp hr))]
      · have hfull : ¬ decide (line.length + 1 < maxlen) = true := by
          rw [decide_eq_true_eq]
          exact fun h => hr ((hroom _).mpr h)
        rw [if_neg fun h => hr h.2.2, if_neg, if_neg (hne 3 (by decide)),
          if_neg (hne 21 (by decide)), if_neg (hne 23 (by decide)), ih, if_neg hfull]
        rintro ⟨rfl | rfl, -⟩
        · exact hne 8 (by decide) rfl
        · exact hne 127 (by decide) rfl
    rw [if_neg fun h => hp ⟨h.1, h.2.1⟩]
    have hk : Key.of ch = if ch = 8 ∨ ch = 127 then .backspace else if ch = 3 then .abort
        else if ch = 21 then .eraseLine else if ch = 23 then .eraseWord else .other := by
      unfold Key.of
      rw [if_neg heol, if_neg hp]
    by_cases hback : ch = 8 ∨ ch = 127
    · rw [if_pos hback] at hk
      rw [editedLine_cons hk (by simp) (by simp), Key.edit]
      by_cases hpos : 0 < line.length
      · rw [if_pos ⟨hback, hpos⟩, ih]
      · -- there is nothing to erase
        have hnil : line = [] := List.length_eq_zero_iff.mp (by omega)
        rcases hback with rfl | rfl <;> simp [hnil, ih]
    rw [if_neg hback] at hk
    rw [if_neg fun h => hback h.1]
    by_cases habort : ch = 3
    · rw [if_pos habort] at hk
      rw [if_pos habort, editedLine, hk, if_pos (.inr rfl)]
      rfl
    rw [if_neg habort] at hk
    rw [if_neg habort]
    by_cases hline : ch = 21
    · rw [if_pos hline] at hk
      rw [if_pos hline, editedLine_cons hk (by simp) (by simp), ih]
      rfl
    rw [if_neg hline] at hk
    rw [if_neg hline]
    by_cases hword : ch = 23
    · rw [if_pos hword] at hk
      rw [if_pos hword, editedLine_cons hk (by simp) (by simp), ih]
      rfl
    rw [if_neg hword] at hk
    rw [if_neg hword, editedLine_cons hk (by simp) (by simp), ih]
    rfl

/-- `sys_read` where the store succeeds: the terminator goes to the buffer. -/
theorem sysRead_eq (hline : editedLine (fun _ => true) input [] = some line)
    (hacc : kernelAccess m as buf true = .ok ()) :
    sysRead m as 0 buf count input = some ⟨[], [(buf.val, 0)], .ok 1⟩ := by
  have hsome : (editedLine (fun n => n + 1 < 1) input []).isSome = true := by
    rw [editedLine_isSome _ (fun _ => true) [] [], hline]
    rfl
  obtain ⟨tmp, htmp⟩ := Option.isSome_iff_exists.mp hsome
  rw [sysRead, if_neg (by decide), kgets_eq_editedLine (by decide) (by decide), htmp]
  obtain rfl : tmp = [] := editedLine_noRoom htmp
  simp only [Option.bind_eq_bind, Option.bind_some, hacc]
  rfl

/-- **No read delivers a character**: whatever was typed, `sys_read` stores the terminator. -/
theorem sys_read_never (hline : editedLine (fun _ => true) input [] = some line)
    (hacc : kernelAccess m as buf true = .ok ()) :
    ¬ Delivers buf line (sysRead m as 0 buf count input) := by
  rintro ⟨o, ch, ho, hhead, hwrites, -⟩
  have htext : 32 ≤ ch :=
    (editedLine_printable (fun c hc => by cases hc) hline ch (List.mem_of_mem_head? hhead)).1
  rw [sysRead_eq hline hacc] at ho
  obtain rfl := Option.some.inj ho
  obtain rfl : ch = 0 := by simpa using hwrites.symm
  exact absurd htext (by decide)

end Lemmas

/-- The address space of a program with its stack only. -/
def stackOnly : Addrspace := asDefineStack asCreate ⟨0, 0, fun _ => 0⟩

theorem one_lt_wordSize : 1 < wordSize := by decide

/-- A byte of the stack, and the count of one byte. -/
def stackByte : Register := ⟨0x7fffff00, by decide⟩

def oneByte : Register := ⟨1, one_lt_wordSize⟩

/-- One `a` and the end of the line are typed, and a byte of the stack is to take the `a`. -/
theorem sys_read_terminator :
    ¬ ∀ (m : Machine) (as : Addrspace) (buf count : Register) (input line : List UInt8),
      editedLine (fun _ => true) input [] = some line → line ≠ [] → 0 < count.val →
        buf.val < userspaceTop → kernelAccess m as buf true = .ok () →
          Delivers buf line (sysRead m as 0 buf count input) := by
  intro hall
  obtain ⟨o, ch, ho, hhead, hwrites, -⟩ := hall ⟨fun _ => true, fun _ => true⟩ stackOnly
    stackByte oneByte [97, 10] [97] rfl (by decide) (by decide) (by decide)
    (by decide)
  have hzero : (sysRead ⟨fun _ => true, fun _ => true⟩ stackOnly 0 stackByte oneByte
      [97, 10]).map Outcome.writes = some [(0x7fffff00, 0)] := by decide
  rw [ho, Option.map_some, hwrites] at hzero
  obtain rfl : (97 : UInt8) = ch := Option.some.inj hhead
  exact absurd hzero (by decide)

/-- The same call of the theorem. -/
theorem sys_read_never_letter :
    ¬ Delivers stackByte [97] (sysRead ⟨fun _ => true, fun _ => true⟩ stackOnly 0
      stackByte oneByte [97, 10]) :=
  sys_read_never rfl (by decide)

end Os161
