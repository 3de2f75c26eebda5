import Mathlib

/-! The lines that the shell shows for a file, from `shell.c`. `cat` passes every chunk it reads to
`shell_emit_buffer`, whose column starts at zero in each call. -/
namespace Shell
open List

abbrev Line := List UInt8

def displayCols : ℕ := 48

def catMaxChunks : ℕ := 8

def shownByte (c : UInt8) : UInt8 := if c < 32 ∨ 126 < c then 32 else c

/-- The loop of `shell_emit_buffer`: the lines it shows, and what is in `emit_buf` after it. -/
def emitBytes (buf : Line) : List UInt8 → List Line × Line
  | [] => ([], buf)
  | c :: bytes =>
    if c = 13 then emitBytes buf bytes
    else if c = 10 then
      if 0 < buf.length then (buf :: (emitBytes [] bytes).1, (emitBytes [] bytes).2)
      else emitBytes [] bytes
    else if displayCols ≤ buf.length + 1 then
      (buf :: (emitBytes [shownByte c] bytes).1, (emitBytes [shownByte c] bytes).2)
    else emitBytes (buf ++ [shownByte c]) bytes

def emitRest (buf : Line) : List Line := if 0 < buf.length then [buf] else []

/-- The lines of `bytes` with `buf` in the buffer. -/
def emitFrom (buf : Line) (bytes : List UInt8) : List Line :=
  (emitBytes buf bytes).1 ++ emitRest (emitBytes buf bytes).2

def shellEmitBuffer (bytes : List UInt8) : List Line := emitFrom [] bytes

def message (text : String) : Line := text.toUTF8.toList

/-- The loop of `cmd_cat` after `chunks` chunks. The list has what the reads return before the end of
the file, a failure or the bytes. -/
def catLoop : List (Option (List UInt8)) → ℕ → List Line
  | [], chunks => if chunks = 0 then [message "CAT: EMPTY"] else []
  | none :: _, _ => [message "CAT: READ FAILED"]
  | some bytes :: reads, chunks =>
    shellEmitBuffer bytes ++
      if catMaxChunks ≤ chunks + 1 then [message "CAT: TRUNCATED"] else catLoop reads (chunks + 1)

def cmdCat (reads : List (Option (List UInt8))) : List Line := catLoop reads 0

/-- The line in `buf` ends before `next` whether or not a chunk ends there. -/
def Ends (buf : Line) : List UInt8 → Prop
  | [] => True
  | c :: next => if c = 13 then Ends buf next else c = 10 ∨ buf = [] ∨ displayCols ≤ buf.length + 1

section Emit
variable {buf : Line} {next : List UInt8}

@[simp] theorem emitRest_nil : emitRest [] = [] := rfl

@[simp] theorem emitRest_of_ne (h : buf ≠ []) : emitRest buf = [buf] := if_pos (length_pos_iff.mpr h)

@[simp] theorem emitFrom_nil : emitFrom buf [] = emitRest buf := rfl

theorem emitFrom_cons (c : UInt8) : emitFrom buf (c :: next) =
    if c = 13 then emitFrom buf next
    else if c = 10 then emitRest buf ++ emitFrom [] next
    else if displayCols ≤ buf.length + 1 then buf :: emitFrom [shownByte c] next
    else emitFrom (buf ++ [shownByte c]) next := by
  unfold emitFrom
  rw [emitBytes]
  split_ifs with hcr hlf hbuf <;> simp [emitRest, *]

theorem emitFrom_append (a b : List UInt8) :
    emitFrom buf (a ++ b) = (emitBytes buf a).1 ++ emitFrom (emitBytes buf a).2 b := by
  fun_induction emitBytes buf a <;> simp_all [emitFrom_cons, emitRest]

theorem emitFrom_of_ends (h : Ends buf next) : emitFrom buf next = emitRest buf ++ emitFrom [] next := by
  induction next with
  | nil => simp
  | cons c next ih =>
    unfold Ends at h
    have hroom : ¬ displayCols ≤ ([] : Line).length + 1 := by decide
    rw [emitFrom_cons, emitFrom_cons, if_neg hroom]
    split_ifs at h ⊢ with hcr hlf hfull
    · exact ih h
    · simp
    · rw [emitRest_of_ne (by rintro rfl; exact hroom hfull)]
      rfl
    · obtain rfl : buf = [] := by tauto
      rfl

theorem emitFrom_head (hbuf : buf ≠ []) :
    ∃ line rest, emitFrom buf next = line :: rest ∧ buf.length ≤ line.length := by
  induction next generalizing buf with
  | nil => exact ⟨buf, [], by simp [hbuf], le_rfl⟩
  | cons c next ih =>
    rw [emitFrom_cons]
    split_ifs with hcr hlf hfull
    · exact ih hbuf
    · exact ⟨buf, _, by rw [emitRest_of_ne hbuf]; rfl, le_rfl⟩
    · exact ⟨buf, _, rfl, le_rfl⟩
    · obtain ⟨line, rest, heq, hle⟩ := ih (append_ne_nil_of_left_ne_nil hbuf [shownByte c])
      rw [length_append] at hle
      exact ⟨line, rest, heq, by omega⟩

theorem emitFrom_longer (h : ¬ Ends buf next) :
    buf ≠ [] ∧ ∃ line rest, emitFrom buf next = line :: rest ∧ buf.length < line.length := by
  induction next with
  | nil => exact absurd trivial h
  | cons c next ih =>
    unfold Ends at h
    rw [emitFrom_cons]
    split_ifs at h ⊢ with hcr hlf hfull
    · exact ih h
    · exact absurd (.inl hlf) h
    · exact absurd (.inr (.inr hfull)) h
    · have hbuf : buf ≠ [] := fun h0 => h (.inr (.inl h0))
      obtain ⟨line, rest, heq, hle⟩ := emitFrom_head (append_ne_nil_of_left_ne_nil hbuf [shownByte c])
      exact ⟨hbuf, line, rest, heq, by simpa using hle⟩

end Emit

/-- Where a chunk ends and the file goes on, the line that the chunk leaves open ends as well. -/
def Seamless : List (List UInt8) → Prop
  | [] => True
  | bytes :: chunks => Ends (emitBytes [] bytes).2 chunks.flatten ∧ Seamless chunks

theorem flatMap_shellEmitBuffer_iff (chunks : List (List UInt8)) :
    chunks.flatMap shellEmitBuffer = shellEmitBuffer chunks.flatten ↔ Seamless chunks := by
  induction chunks with
  | nil => simp [Seamless, shellEmitBuffer]
  | cons bytes chunks ih =>
    rw [flatMap_cons, flatten_cons, Seamless, shellEmitBuffer, shellEmitBuffer, emitFrom_append,
      emitFrom, append_assoc, append_cancel_left_eq]
    generalize (emitBytes [] bytes).2 = buf
    by_cases hends : Ends buf chunks.flatten
    · rw [emitFrom_of_ends hends, append_cancel_left_eq, and_iff_right hends]
      exact ih
    · refine iff_of_false (fun heq => ?_) fun h => hends h.1
      obtain ⟨hbuf, line, rest, hline, hlt⟩ := emitFrom_longer hends
      rw [hline, emitRest_of_ne hbuf] at heq
      exact hlt.ne (congrArg length (cons.inj heq).1)

theorem catLoop_eq {reads : List (List UInt8)} {chunks : ℕ}
    (hfew : chunks + reads.length < catMaxChunks) (hsome : chunks ≠ 0 ∨ reads ≠ []) :
    catLoop (reads.map some) chunks = reads.flatMap shellEmitBuffer := by
  induction reads generalizing chunks with
  | nil => simpa [catLoop] using hsome
  | cons bytes reads ih =>
    rw [length_cons] at hfew
    rw [map_cons, catLoop, if_neg (by omega), ih (by omega) (.inl (by omega)), flatMap_cons]

theorem cat_shows_file_iff (chunks : List (List UInt8)) (hfew : chunks.length < catMaxChunks) :
    cmdCat (chunks.map some) = shellEmitBuffer chunks.flatten ↔ chunks ≠ [] ∧ Seamless chunks := by
  by_cases hnil : chunks = []
  · subst hnil
    exact iff_of_false (cons_ne_nil _ _) fun h => h.1 rfl
  · rw [cmdCat, catLoop_eq (by omega) (.inr hnil), flatMap_shellEmitBuffer_iff, and_iff_right hnil]

theorem cat_shows_two_lines : cmdCat [some [97, 10], some [98]] = shellEmitBuffer [97, 10, 98] :=
  (cat_shows_file_iff [[97, 10], [98]] (by decide)).mpr ⟨by decide, .inr (.inl rfl), trivial, trivial⟩

theorem cat_breaks_line_between_chunks :
    cmdCat [some [97], some [98]] = [[97], [98]] ∧ shellEmitBuffer [97, 98] = [[97, 98]] := by
  decide

end Shell
