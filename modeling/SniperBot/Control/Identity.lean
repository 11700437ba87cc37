import SniperBot.Basis.Words

/-!
# The identity of a process

A process is known by its id and by the clock ticks at which it started (`process_identity.py`).
Both are written to the PID file, and the ticks are read from `/proc/<pid>/stat`, where the second
field is the name of the command in parentheses. A process can give itself any name, so the line
is cut at the last closing parenthesis (`parseLinuxProcStat_line`).
-/

namespace SniperBot.Control

open Basis Text

@[ext]
structure ProcessIdentity where
  pid : ℕ
  startTicks : ℕ
  deriving DecidableEq, Repr

/-- What reading a file in ASCII gives. -/
def IsAscii (value : List Char) : Prop := ∀ c ∈ value, c.toNat < 128

instance (value : List Char) : Decidable (IsAscii value) := List.decidableBAll _ _

/-! ## The PID file -/

/-- `parse_process_identity` -/
def parseProcessIdentity (value : List Char) : Except String ProcessIdentity :=
  match words value with
  | [pid, startTicks] =>
    match readInt pid, readInt startTicks with
    | some pid, some startTicks =>
        if pid ≤ 0 then .error "PID must be positive"
        else if startTicks < 0 then .error "Linux process start ticks must not be negative"
        else .ok ⟨pid.toNat, startTicks.toNat⟩
    | _, _ => .error "PID file contains non-integer process identity fields"
  | _ => .error "PID file must contain exactly PID and Linux start ticks"

/-- `read_process_identity_file`, of what a regular file contains. A file is decoded in chunks of
8192 bytes. -/
def readProcessIdentityFile (content : List Char) : Except String ProcessIdentity :=
  if ¬IsAscii (content.take 8192) then .error "'ascii' codec can't decode"
  else if 128 < content.length then .error "PID file is too large"
  else parseProcessIdentity content

/-- The payload of `write_process_identity_file`. -/
def payload (identity : ProcessIdentity) : List Char :=
  Nat.toDigits 10 identity.pid ++ ' ' :: Nat.toDigits 10 identity.startTicks ++ ['\n']

theorem words_payload (identity : ProcessIdentity) :
    words (payload identity) =
      [Nat.toDigits 10 identity.pid, Nat.toDigits 10 identity.startTicks] := by
  have hticks : words (Nat.toDigits 10 identity.startTicks ++ ['\n']) =
      [Nat.toDigits 10 identity.startTicks] :=
    words_append (isWord_toDigits _) (head_space (by decide) _)
  rw [payload, List.append_assoc, List.cons_append,
    words_append (isWord_toDigits _) (head_space (by decide) _), words_space (by decide), hticks]

/-- The identity of a process is read as it was written. -/
theorem parseProcessIdentity_payload {identity : ProcessIdentity} (hpid : 0 < identity.pid) :
    parseProcessIdentity (payload identity) = .ok identity := by
  rw [parseProcessIdentity, words_payload]
  simp only [readInt_toDigits]
  rw [if_neg (by omega), if_neg (by omega)]
  rfl

theorem readProcessIdentityFile_payload {identity read : ProcessIdentity} (hpid : 0 < identity.pid)
    (h : readProcessIdentityFile (payload identity) = .ok read) : read = identity := by
  unfold readProcessIdentityFile at h
  split at h
  · cases h
  · split at h
    · cases h
    · rw [parseProcessIdentity_payload hpid] at h
      exact (Except.ok.inj h).symm

theorem isAscii_payload (identity : ProcessIdentity) : IsAscii (payload identity) := by
  have hdigits (n : ℕ) : IsAscii (Nat.toDigits 10 n) := fun c hc => by
    have := toNat_of_isDigit (Nat.isDigit_of_mem_toDigits (by decide) (by decide) hc)
    omega
  have hblank : IsAscii (' ' :: Nat.toDigits 10 identity.startTicks) :=
    List.forall_mem_cons.mpr ⟨by decide, hdigits _⟩
  refine List.forall_mem_append.mpr ⟨List.forall_mem_append.mpr ⟨hdigits _, hblank⟩, ?_⟩
  exact List.forall_mem_singleton.mpr (by decide)

/-- A payload that is not too large. -/
theorem readProcessIdentityFile_ok {identity : ProcessIdentity} (hpid : 0 < identity.pid)
    (hsize : (payload identity).length ≤ 128) :
    readProcessIdentityFile (payload identity) = .ok identity := by
  have hascii : IsAscii ((payload identity).take 8192) := fun c hc =>
    isAscii_payload identity c (List.mem_of_mem_take hc)
  rw [readProcessIdentityFile, if_neg (not_not.mpr hascii), if_neg (by omega),
    parseProcessIdentity_payload hpid]

/-! ## The status line of a process -/

/-- `parse_linux_proc_stat` -/
def parseLinuxProcStat (pid : ℕ) (value : List Char) : Except String ProcessIdentity :=
  if pid = 0 then .error "PID must be positive"
  else if ')' ∉ value then .error "Linux process stat has no command terminator"
  else
    let fieldsAfterCommand := words (value.reverse.takeWhile (· ≠ ')')).reverse
    -- Field 22, with this list beginning at field 3.
    match fieldsAfterCommand[19]? with
    | none => .error "Linux process stat is missing start time"
    | some field =>
      match readInt field with
      | none => .error "Linux process stat start time is not an integer"
      | some startTicks =>
          if startTicks < 0 then .error "Linux process start ticks must not be negative"
          else .ok ⟨pid, startTicks.toNat⟩

/-- `read_linux_process_identity`, with the line of the process. -/
def readLinuxProcessIdentity (pid : ℕ) (line : List Char) : Except String ProcessIdentity :=
  if IsAscii line then parseLinuxProcStat pid line else .error "'ascii' codec can't decode"

/-- A field of the status line behind the name of the command. -/
def IsField (field : List Char) : Prop := IsWord field ∧ ')' ∉ field

instance (field : List Char) : Decidable (IsField field) := inferInstanceAs (Decidable (_ ∧ _))

/-- The line that the kernel writes for a process: its id, the name of its command, which may be
anything, 19 fields, the start ticks and further fields. -/
def StatusLine (identity : ProcessIdentity) (line : List Char) : Prop :=
  ∃ command fields rest : List _, (∀ field ∈ fields ++ rest, IsField field) ∧ fields.length = 19 ∧
    line = Nat.toDigits 10 identity.pid ++ " (".toList ++ command ++ ')' ::
      blankJoin (fields ++ Nat.toDigits 10 identity.startTicks :: rest) ++ ['\n']

theorem isField_toDigits (n : ℕ) : IsField (Nat.toDigits 10 n) :=
  ⟨isWord_toDigits n, notMem_toDigits (by decide) n⟩

theorem notMem_blankJoin {fields : List (List Char)} (h : ∀ field ∈ fields, IsField field) :
    ')' ∉ blankJoin fields := by
  intro hmem
  obtain ⟨part, hpart, hin⟩ := List.mem_flatten.mp hmem
  obtain ⟨field, hfield, rfl⟩ := List.mem_map.mp hpart
  rcases List.mem_cons.mp hin with hblank | hin
  · cases hblank
  · exact (h field hfield).2 hin

/-- What follows the last closing parenthesis. -/
theorem takeWhile_last {before after : List Char} (h : ')' ∉ after) :
    ((before ++ ')' :: after).reverse.takeWhile (· ≠ ')')).reverse = after := by
  have hafter : ∀ c ∈ after.reverse, decide (c ≠ ')') = true := fun c hc =>
    decide_eq_true fun heq => h (heq ▸ List.mem_reverse.mp hc)
  rw [List.reverse_append, List.reverse_cons, List.append_assoc,
    List.takeWhile_append_of_pos hafter]
  simp

/-- Whatever a process calls itself, its start ticks are read. -/
theorem parseLinuxProcStat_line {identity : ProcessIdentity} {line : List Char}
    (hpid : 0 < identity.pid) (hline : StatusLine identity line) :
    parseLinuxProcStat identity.pid line = .ok identity := by
  obtain ⟨command, fields, rest, hfields, hcount, rfl⟩ := hline
  have hall : ∀ field ∈ fields ++ Nat.toDigits 10 identity.startTicks :: rest, IsField field := by
    intro field hfield
    rcases List.mem_append.mp hfield with hleft | hright
    · exact hfields field (List.mem_append_left _ hleft)
    · rcases List.mem_cons.mp hright with rfl | hright
      · exact isField_toDigits _
      · exact hfields field (List.mem_append_right _ hright)
  have hafter : ')' ∉
      blankJoin (fields ++ Nat.toDigits 10 identity.startTicks :: rest) ++ ['\n'] := by
    rw [List.mem_append, not_or]
    exact ⟨notMem_blankJoin hall, by decide⟩
  have hwords : words (blankJoin (fields ++ Nat.toDigits 10 identity.startTicks :: rest) ++ ['\n'])
      = fields ++ Nat.toDigits 10 identity.startTicks :: rest := by
    rw [words_blankJoin (fun field hfield => (hall field hfield).1) (head_space (by decide) _)]
    exact List.append_nil _
  have hline (before : List Char) (after : List Char) :
      before ++ ')' :: after ++ ['\n'] = before ++ ')' :: (after ++ ['\n']) := by simp
  rw [parseLinuxProcStat, if_neg (by omega), hline, if_neg (by simp)]
  simp only [takeWhile_last hafter, hwords]
  rw [List.getElem?_append_right (by omega), hcount]
  simp only [Nat.sub_self, List.getElem?_cons_zero, readInt_toDigits]
  rw [if_neg (by omega)]
  rfl

theorem readLinuxProcessIdentity_line {identity read : ProcessIdentity} {line : List Char}
    (hpid : 0 < identity.pid) (hline : StatusLine identity line)
    (h : readLinuxProcessIdentity identity.pid line = .ok read) : read = identity := by
  unfold readLinuxProcessIdentity at h
  split at h
  · rw [parseLinuxProcStat_line hpid hline] at h
    exact (Except.ok.inj h).symm
  · cases h

end SniperBot.Control
