import SniperBot.Protocols.Anchor

/-!
# Events of the true invocation tree

What a transaction really did is a tree of program invocations. Its log is the linearisation of
that tree: every invocation opens and closes with a line of the runtime, and between the two stand
the lines of its body, among them messages whose text the program chooses. `Transaction.entries`
is the log with the true attribution of its data lines.

The decoder reads its stack off the text. It is right as long as no message looks like a line
that opens or closes an invocation (`decodeLogs_of_harmless`), and every message that does look
like one hides an event in some transaction, whatever the IDL is (`decodeLogs_right_iff`).
-/

namespace SniperBot.Protocols

open Basis Text

/-! ## Lines of the runtime -/

/-- A program address as the runtime writes it. -/
structure ProgramId where
  text : String
  base58 : text.toList ⊆ base58Alphabet
  size : 32 ≤ text.length ∧ text.length ≤ 44

/-- Why an invocation failed, in the words of the runtime. -/
structure FailureReason where
  text : String
  plain : '[' ∉ text.toList

def logLine (message : String) : String := "Program log: " ++ message

/-- The fields of one `sol_log_data` call. -/
def dataText : List (List UInt8) → String
  | [] => ""
  | [field] => Base64.encode field
  | field :: fields => Base64.encode field ++ " " ++ dataText fields

def dataLine (fields : List (List UInt8)) : String := "Program data: " ++ dataText fields

def unitsLine (left : Nat) : String :=
  "Program consumption: " ++ toString left ++ " units remaining"

def invokeLine (program : ProgramId) (depth : Nat) : String :=
  "Program " ++ program.text ++ " invoke [" ++ toString depth ++ "]"

def consumedLine (program : ProgramId) (used budget : Nat) : String :=
  "Program " ++ program.text ++ " consumed " ++ toString used ++ " of " ++ toString budget ++
    " compute units"

def returnLine (program : ProgramId) (bytes : List UInt8) : String :=
  "Program return: " ++ program.text ++ " " ++ Base64.encode bytes

def successLine (program : ProgramId) : String := "Program " ++ program.text ++ " success"

def failedLine (program : ProgramId) (reason : FailureReason) : String :=
  "Program " ++ program.text ++ " failed: " ++ reason.text

/-! ## Invocation trees -/

/-- How an invocation ends: the compute units, the return data and the outcome. -/
structure Ending where
  consumed : Option (Nat × Nat) := none
  returned : Option (List UInt8) := none
  failure : Option FailureReason := none

/-- The body of an invocation, line by line. -/
inductive Forest
  | done
  | log (message : String) (rest : Forest)
  | data (fields : List (List UInt8)) (rest : Forest)
  | units (left : Nat) (rest : Forest)
  | invoke (program : ProgramId) (body : Forest) (ending : Ending) (rest : Forest)

/-- A top-level instruction. -/
structure Instruction where
  program : ProgramId
  body : Forest
  ending : Ending := {}

def Ending.lines (ending : Ending) (program : ProgramId) : List String :=
  (ending.consumed.map fun units => consumedLine program units.1 units.2).toList ++
    (ending.returned.map fun bytes => returnLine program bytes).toList ++
    [match ending.failure with
      | none => successLine program
      | some reason => failedLine program reason]

/-- Lines that are not the event of anyone. -/
def plainEntries (lines : List String) : List Entry :=
  lines.map fun line => { line := line, own := false }

/-- The lines of a body that runs as `program`, with their attribution to `own`. -/
def Forest.entries (own program : ProgramId) (depth : Nat) : Forest → List Entry
  | .done => []
  | .log message rest =>
      { line := logLine message, own := false } :: rest.entries own program depth
  | .data fields rest =>
      { line := dataLine fields, own := decide (program.text = own.text) } ::
        rest.entries own program depth
  | .units left rest =>
      { line := unitsLine left, own := false } :: rest.entries own program depth
  | .invoke callee body ending rest =>
      { line := invokeLine callee (depth + 1), own := false } ::
        (body.entries own callee (depth + 1) ++ plainEntries (ending.lines callee) ++
          rest.entries own program depth)

def Instruction.entries (own : ProgramId) (i : Instruction) : List Entry :=
  { line := invokeLine i.program 1, own := false } ::
    (i.body.entries own i.program 1 ++ plainEntries (i.ending.lines i.program))

/-- A transaction is the list of its instructions. -/
abbrev Transaction := List Instruction

def Transaction.entries (own : ProgramId) (tx : Transaction) : List Entry :=
  tx.flatMap fun i => i.entries own

/-- The log of a transaction. -/
def Transaction.logs (tx : Transaction) (own : ProgramId) : List String :=
  (tx.entries own).map Entry.line

/-! ## Messages -/

/-- Every message of a body has the property. -/
def Forest.Messages (T : String → Prop) : Forest → Prop
  | .done => True
  | .log message rest => T message ∧ rest.Messages T
  | .data _ rest => rest.Messages T
  | .units _ rest => rest.Messages T
  | .invoke _ body _ rest => body.Messages T ∧ rest.Messages T

theorem Forest.Messages.mono {T T' : String → Prop} (hmono : ∀ message, T message → T' message)
    {body : Forest} (h : body.Messages T) : body.Messages T' := by
  induction body with
  | done => trivial
  | log message rest ih => exact ⟨hmono message h.1, ih h.2⟩
  | data fields rest ih => exact ih h
  | units left rest ih => exact ih h
  | invoke program body ending rest ihbody ihrest => exact ⟨ihbody h.1, ihrest h.2⟩

def Transaction.Messages (T : String → Prop) (tx : Transaction) : Prop :=
  ∀ i ∈ tx, i.body.Messages T

/-- A message whose line looks like the start or the end of an invocation. -/
def Confusing (message : String) : Prop :=
  LooksLikeInvoke (logLine message) ∨ LooksLikeReturn (logLine message)

instance (message : String) : Decidable (Confusing message) :=
  inferInstanceAs (Decidable (_ ∨ _))

/-! ## What the lines look like -/

theorem ProgramId.notMem (program : ProgramId) {c : Char} (hc : c ∉ base58Alphabet) :
    c ∉ program.text.toList :=
  fun h => hc (program.base58 h)

theorem ProgramId.bracket_notMem (program : ProgramId) : '[' ∉ program.text.toList :=
  program.notMem (by decide)

theorem ProgramId.colon_notMem (program : ProgramId) : ':' ∉ program.text.toList :=
  program.notMem (by decide)

theorem looksLikeInvoke_invokeLine (program : ProgramId) (depth : Nat) :
    LooksLikeInvoke (invokeLine program depth) ∧
      secondWord (invokeLine program depth) = program.text := by
  have hline : invokeLine program depth =
      "Program" ++ " " ++ program.text ++ " " ++ ("invoke [" ++ toString depth ++ "]") := by
    apply String.toList_injective
    unfold invokeLine
    simp [String.toList_append]
  refine ⟨⟨?_, ?_⟩, ?_⟩
  · have hstart := startsWith_append "Program "
      (program.text ++ " invoke [" ++ toString depth ++ "]")
    simpa [invokeLine, String.append_assoc] using hstart
  · have hmid := contains_append ("Program " ++ program.text) " invoke [" (toString depth ++ "]")
    simpa [invokeLine, String.append_assoc] using hmid
  · rw [hline]
    exact secondWord_append (by decide) (program.notMem (by decide)) _

theorem not_looksLikeInvoke_of_notMem {line : String} (h : '[' ∉ line.toList) :
    ¬ LooksLikeInvoke line :=
  fun hinvoke => not_contains_of_notMem (by decide) h hinvoke.2

theorem successLine_looks (program : ProgramId) :
    ¬ LooksLikeInvoke (successLine program) ∧ LooksLikeReturn (successLine program) := by
  constructor
  · apply not_looksLikeInvoke_of_notMem
    unfold successLine
    simp [String.toList_append, program.bracket_notMem]
  · refine ⟨?_, Or.inl (endsWith_append _ _)⟩
    have hstart := startsWith_append "Program " (program.text ++ " success")
    simpa [successLine, String.append_assoc] using hstart

theorem failedLine_looks (program : ProgramId) (reason : FailureReason) :
    ¬ LooksLikeInvoke (failedLine program reason) ∧
      LooksLikeReturn (failedLine program reason) := by
  constructor
  · apply not_looksLikeInvoke_of_notMem
    unfold failedLine
    simp [String.toList_append, reason.plain, program.bracket_notMem]
  · refine ⟨?_, Or.inr ?_⟩
    · have hstart := startsWith_append "Program " (program.text ++ " failed: " ++ reason.text)
      simpa [failedLine, String.append_assoc] using hstart
    · have hmid := contains_append ("Program " ++ program.text) " failed:" (" " ++ reason.text)
      have hline : failedLine program reason =
          "Program " ++ program.text ++ " failed:" ++ (" " ++ reason.text) := by
        apply String.toList_injective
        unfold failedLine
        simp [String.toList_append]
      rw [hline]
      exact hmid

/-- A line that the decoder passes over without touching its stack. -/
def Quiet (line : String) : Prop := ¬ LooksLikeInvoke line ∧ ¬ LooksLikeReturn line

theorem word_eq_success (before word : String) (hblank : ' ' ∉ word.toList)
    (h : EndsWith " success" (before ++ " " ++ word)) : word = "success" := by
  have hpattern : " success" = " " ++ "success" := by decide
  rw [hpattern] at h
  exact eq_of_endsWith_word (by decide) hblank h

theorem colon_notMem_consumedLine (program : ProgramId) (used budget : Nat) :
    ':' ∉ (consumedLine program used budget).toList := by
  unfold consumedLine
  simp [String.toList_append, program.colon_notMem,
    notMem_toDigits (show ':'.isDigit = false by decide)]

theorem consumedLine_quiet (program : ProgramId) (used budget : Nat) :
    Quiet (consumedLine program used budget) := by
  have hbracket : '[' ∉ (consumedLine program used budget).toList := by
    unfold consumedLine
    simp [String.toList_append, program.bracket_notMem,
      notMem_toDigits (show '['.isDigit = false by decide)]
  refine ⟨not_looksLikeInvoke_of_notMem hbracket, ?_⟩
  rintro ⟨-, hsuccess | hfailed⟩
  · have hline : consumedLine program used budget =
        ("Program " ++ program.text ++ " consumed " ++ toString used ++ " of " ++
          toString budget ++ " compute") ++ " " ++ "units" := by
      apply String.toList_injective
      unfold consumedLine
      simp [String.toList_append]
    rw [hline] at hsuccess
    exact absurd (word_eq_success _ "units" (by decide) hsuccess) (by decide)
  · exact not_contains_of_notMem (by decide) (colon_notMem_consumedLine program used budget) hfailed

theorem unitsLine_quiet (left : Nat) : Quiet (unitsLine left) := by
  have hbracket : '[' ∉ (unitsLine left).toList := by
    unfold unitsLine
    simp [String.toList_append, notMem_toDigits (show '['.isDigit = false by decide)]
  have hf : 'f' ∉ (unitsLine left).toList := by
    unfold unitsLine
    simp [String.toList_append, notMem_toDigits (show 'f'.isDigit = false by decide)]
  refine ⟨not_looksLikeInvoke_of_notMem hbracket, ?_⟩
  rintro ⟨-, hsuccess | hfailed⟩
  · have hline : unitsLine left =
        ("Program consumption: " ++ toString left ++ " units") ++ " " ++ "remaining" := by
      apply String.toList_injective
      unfold unitsLine
      simp [String.toList_append]
    rw [hline] at hsuccess
    exact absurd (word_eq_success _ "remaining" (by decide) hsuccess) (by decide)
  · exact not_contains_of_notMem (by decide) hf hfailed

/-- A base64 text is never the word `success`: its length is a multiple of four. -/
theorem encode_ne_success (bytes : List UInt8) : Base64.encode bytes ≠ "success" := by
  intro h
  have hchars := congrArg String.toList h
  rw [Base64.encode, String.toList_ofList] at hchars
  have hlength := Base64.length_encodeChars bytes
  rw [hchars] at hlength
  exact absurd hlength (by decide)

/-- A line with one colon, after a word that is not `failed`, and a last word that is not
`success`. -/
theorem quiet_of_head (head rest before word : String) (hhead : ':' ∉ head.toList)
    (hrest : ':' ∉ rest.toList) (hbracket : '[' ∉ (head ++ ":" ++ rest).toList)
    (hfailed : ¬ EndsWith " failed" head) (hline : head ++ ":" ++ rest = before ++ " " ++ word)
    (hblank : ' ' ∉ word.toList) (hword : word ≠ "success") : Quiet (head ++ ":" ++ rest) := by
  refine ⟨not_looksLikeInvoke_of_notMem hbracket, ?_⟩
  rintro ⟨-, hsuccess | hcontains⟩
  · rw [hline] at hsuccess
    exact hword (word_eq_success before word hblank hsuccess)
  · have hpattern : " failed:" = " failed" ++ String.singleton ':' := by decide
    rw [hpattern] at hcontains
    exact hfailed (endsWith_of_contains_mark hhead hrest hcontains)

theorem returnLine_quiet (program : ProgramId) (bytes : List UInt8) :
    Quiet (returnLine program bytes) := by
  have hline : returnLine program bytes =
      "Program return" ++ ":" ++ (" " ++ program.text ++ " " ++ Base64.encode bytes) := by
    apply String.toList_injective
    unfold returnLine
    simp [String.toList_append]
  have hcode : ∀ c, c ∉ Base64.alphabet → c ≠ '=' → c ∉ (Base64.encode bytes).toList :=
    fun c hc hpad => Base64.notMem_encode hc hpad bytes
  rw [hline]
  refine quiet_of_head _ _ ("Program return: " ++ program.text) (Base64.encode bytes)
    (by decide) ?_ ?_ (by decide) ?_ (hcode _ (by decide) (by decide)) (encode_ne_success bytes)
  · simp [String.toList_append, program.colon_notMem,
      hcode ':' (by decide) (by decide)]
  · simp [String.toList_append, program.bracket_notMem,
      hcode '[' (by decide) (by decide)]
  · apply String.toList_injective
    simp [String.toList_append]

/-- The text of a data line: its characters, and its last word behind a blank. -/
theorem dataText_spec (fields : List (List UInt8)) :
    (∀ c, c ∉ Base64.alphabet → c ≠ '=' → c ≠ ' ' → c ∉ (dataText fields).toList) ∧
      ∃ before word, " " ++ dataText fields = before ++ " " ++ word ∧ ' ' ∉ word.toList ∧
        word ≠ "success" := by
  induction fields using dataText.induct with
  | case1 => exact ⟨by simp [dataText], "", "", rfl, by decide, by decide⟩
  | case2 field =>
      refine ⟨fun c hc hpad _ => Base64.notMem_encode hc hpad field, "", Base64.encode field, ?_,
        Base64.notMem_encode (by decide) (by decide) field, encode_ne_success field⟩
      rw [dataText, String.empty_append]
  | case3 field fields hne ih =>
      obtain ⟨hchars, before, word, hsplit, hblank, hword⟩ := ih
      have htext : dataText (field :: fields) =
          Base64.encode field ++ " " ++ dataText fields := by
        rw [dataText]
        exact hne
      rw [htext]
      constructor
      · intro c hc hpad hspace
        simp [String.toList_append, Base64.notMem_encode hc hpad field, hspace,
          hchars c hc hpad hspace]
      · refine ⟨" " ++ Base64.encode field ++ before, word, ?_, hblank, hword⟩
        calc " " ++ (Base64.encode field ++ " " ++ dataText fields)
            = " " ++ Base64.encode field ++ (" " ++ dataText fields) := by
              simp only [String.append_assoc]
          _ = " " ++ Base64.encode field ++ before ++ " " ++ word := by
              rw [hsplit]
              simp only [String.append_assoc]

theorem dataLine_quiet (fields : List (List UInt8)) : Quiet (dataLine fields) := by
  obtain ⟨hchars, before, word, hsplit, hblank, hword⟩ := dataText_spec fields
  have hline : dataLine fields = "Program data" ++ ":" ++ (" " ++ dataText fields) := by
    apply String.toList_injective
    unfold dataLine
    simp [String.toList_append]
  rw [hline]
  refine quiet_of_head _ _ ("Program data:" ++ before) word (by decide) ?_ ?_ (by decide) ?_
    hblank hword
  · simp [String.toList_append, hchars ':' (by decide) (by decide) (by decide)]
  · simp [String.toList_append, hchars '[' (by decide) (by decide) (by decide)]
  · rw [hsplit]
    apply String.toList_injective
    simp [String.toList_append]

/-! ## What the decoder makes of the lines -/

section Lines

variable {own : String} {scan : Scan} {line : String}

theorem step_quiet (h : Quiet line) : scan.step own line = scan := by
  rw [Scan.step, if_neg h.1, if_neg h.2]

theorem step_invokeLine (program : ProgramId) (depth : Nat) :
    scan.step own (invokeLine program depth) =
      { stack := program.text :: scan.stack
        seen := scan.seen || decide (program.text = own) } := by
  obtain ⟨hlooks, hword⟩ := looksLikeInvoke_invokeLine program depth
  rw [Scan.step, if_pos hlooks, hword]

theorem step_return (hinvoke : ¬ LooksLikeInvoke line) (hreturn : LooksLikeReturn line) :
    scan.step own line = { scan with stack := scan.stack.tail } := by
  rw [Scan.step, if_neg hinvoke, if_pos hreturn]

theorem accepts_of_looks (h : LooksLikeInvoke line ∨ LooksLikeReturn line) :
    scan.accepts own line = false :=
  decide_eq_false fun haccepts => h.elim haccepts.1 haccepts.2.1

theorem accepts_of_not_data (h : ¬ StartsWith "Program data: " line) :
    scan.accepts own line = false :=
  decide_eq_false fun haccepts => h haccepts.2.2.1

theorem accepts_dataLine (fields : List (List UInt8)) (top : String) (below : List String)
    (seen : Bool) :
    Scan.accepts own ⟨top :: below, seen⟩ (dataLine fields) = decide (top = own) := by
  obtain ⟨hinvoke, hreturn⟩ := dataLine_quiet fields
  have hdata : StartsWith "Program data: " (dataLine fields) := startsWith_append _ _
  simp [Scan.accepts, hinvoke, hreturn, hdata]

/-- A line with another beginning is no data line. -/
theorem not_data_of_head (head rest : String)
    (h : ¬ (StartsWith "Program data: " head ∨ StartsWith head "Program data: ")) :
    ¬ StartsWith "Program data: " (head ++ rest) :=
  fun hdata => h (startsWith_or_of_startsWith hdata)

theorem plainEntries_own (lines : List String) :
    ∀ entry ∈ plainEntries lines, entry.own = false := by
  intro entry hentry
  obtain ⟨line, -, rfl⟩ := List.mem_map.mp hentry
  rfl

theorem plainEntries_append (lines more : List String) :
    plainEntries (lines ++ more) = plainEntries lines ++ plainEntries more := List.map_append

/-- Lines that are quiet and no data lines leave no trace. -/
theorem scan_plain (own : String) (scan : Scan) {lines : List String}
    (h : ∀ line ∈ lines, Quiet line ∧ ¬ StartsWith "Program data: " line) :
    scan.entries own lines = plainEntries lines ∧ lines.foldl (Scan.step own) scan = scan := by
  induction lines with
  | nil => exact ⟨rfl, rfl⟩
  | cons line lines ih =>
      obtain ⟨hquiet, hdata⟩ := h line List.mem_cons_self
      obtain ⟨hentries, hfinal⟩ := ih fun other hother => h other (List.mem_cons_of_mem _ hother)
      constructor
      · rw [Scan.entries, step_quiet hquiet, accepts_of_not_data hdata, hentries]
        rfl
      · rw [List.foldl_cons, step_quiet hquiet, hfinal]

end Lines

theorem consumedLine_not_data (program : ProgramId) (used budget : Nat) :
    ¬ StartsWith "Program data: " (consumedLine program used budget) := by
  intro hdata
  exact colon_notMem_consumedLine program used budget (hdata.subset (by decide))

theorem returnLine_not_data (program : ProgramId) (bytes : List UInt8) :
    ¬ StartsWith "Program data: " (returnLine program bytes) := by
  have hline : returnLine program bytes =
      "Program return: " ++ (program.text ++ " " ++ Base64.encode bytes) := by
    unfold returnLine
    simp only [String.append_assoc]
  rw [hline]
  exact not_data_of_head _ _ (by decide)

theorem unitsLine_not_data (left : Nat) : ¬ StartsWith "Program data: " (unitsLine left) := by
  have hline : unitsLine left =
      "Program consumption: " ++ (toString left ++ " units remaining") := by
    unfold unitsLine
    simp only [String.append_assoc]
  rw [hline]
  exact not_data_of_head _ _ (by decide)

theorem logLine_not_data (message : String) :
    ¬ StartsWith "Program data: " (logLine message) :=
  not_data_of_head _ _ (by decide)

theorem scan_closing (own : String) (scan : Scan) {before : List String} {last : String}
    (hbefore : ∀ line ∈ before, Quiet line ∧ ¬ StartsWith "Program data: " line)
    (hlast : ¬ LooksLikeInvoke last ∧ LooksLikeReturn last) :
    scan.entries own (before ++ [last]) = plainEntries (before ++ [last]) ∧
      (before ++ [last]).foldl (Scan.step own) scan = { scan with stack := scan.stack.tail } := by
  obtain ⟨hentries, hfinal⟩ := scan_plain own scan hbefore
  constructor
  · rw [Scan.entries_append, hentries, hfinal, Scan.entries, Scan.entries,
      accepts_of_looks (Or.inr hlast.2), plainEntries_append]
    rfl
  · rw [List.foldl_append, hfinal]
    exact step_return hlast.1 hlast.2

/-- The closing lines of an invocation take it off the stack. -/
theorem scan_ending (own : String) (scan : Scan) (program : ProgramId) (ending : Ending) :
    scan.entries own (ending.lines program) = plainEntries (ending.lines program) ∧
      (ending.lines program).foldl (Scan.step own) scan =
        { scan with stack := scan.stack.tail } := by
  refine scan_closing own scan (fun line hline => ?_) ?_
  · rcases List.mem_append.mp hline with hline | hline
    · obtain ⟨units, -, rfl⟩ := Option.map_eq_some_iff.mp (Option.mem_toList.mp hline)
      exact ⟨consumedLine_quiet _ _ _, consumedLine_not_data _ _ _⟩
    · obtain ⟨bytes, -, rfl⟩ := Option.map_eq_some_iff.mp (Option.mem_toList.mp hline)
      exact ⟨returnLine_quiet _ _, returnLine_not_data _ _⟩
  · cases ending.failure with
    | none => exact successLine_looks program
    | some reason => exact failedLine_looks program reason

/-! ## Harmless messages -/

theorem entries_lines_append (entries more : List Entry) :
    (entries ++ more).map Entry.line = entries.map Entry.line ++ more.map Entry.line :=
  List.map_append

theorem plainEntries_lines (lines : List String) : (plainEntries lines).map Entry.line = lines := by
  simp [plainEntries, Function.comp_def]

/-- The decoder attributes the lines of a body as the tree does, and the stack is as before. -/
theorem scan_forest (own : ProgramId) (body : Forest)
    (h : body.Messages fun message => ¬ Confusing message) (program : ProgramId) (depth : Nat)
    (below : List String) (seen : Bool) :
    Scan.entries own.text ⟨program.text :: below, seen⟩
        ((body.entries own program depth).map Entry.line) = body.entries own program depth ∧
      ∃ seen', ((body.entries own program depth).map Entry.line).foldl (Scan.step own.text)
        ⟨program.text :: below, seen⟩ = ⟨program.text :: below, seen'⟩ := by
  induction body generalizing program depth below seen with
  | done => exact ⟨rfl, seen, rfl⟩
  | log message rest ih =>
      obtain ⟨hmessage, hrest⟩ := h
      have hquiet : Quiet (logLine message) := not_or.mp hmessage
      obtain ⟨hentries, seen', hfinal⟩ := ih hrest program depth below seen
      simp only [Forest.entries, List.map_cons, Scan.entries, List.foldl_cons, step_quiet hquiet,
        accepts_of_not_data (logLine_not_data message), hentries, true_and]
      exact ⟨seen', hfinal⟩
  | data fields rest ih =>
      obtain ⟨hentries, seen', hfinal⟩ := ih h program depth below seen
      simp only [Forest.entries, List.map_cons, Scan.entries, List.foldl_cons,
        step_quiet (dataLine_quiet fields), accepts_dataLine, hentries, true_and]
      exact ⟨seen', hfinal⟩
  | units left rest ih =>
      obtain ⟨hentries, seen', hfinal⟩ := ih h program depth below seen
      simp only [Forest.entries, List.map_cons, Scan.entries, List.foldl_cons,
        step_quiet (unitsLine_quiet left), accepts_of_not_data (unitsLine_not_data left), hentries,
        true_and]
      exact ⟨seen', hfinal⟩
  | invoke callee body ending rest ihbody ihrest =>
      obtain ⟨hbody, hrest⟩ := h
      obtain ⟨hinner, seen₁, hinnerFinal⟩ := ihbody hbody callee (depth + 1)
        (program.text :: below) (seen || decide (callee.text = own.text))
      obtain ⟨hclose, hcloseFinal⟩ := scan_ending own.text
        ⟨callee.text :: program.text :: below, seen₁⟩ callee ending
      obtain ⟨houter, seen₂, houterFinal⟩ := ihrest hrest program depth below seen₁
      simp only [Forest.entries, List.map_cons, Scan.entries, List.foldl_cons, step_invokeLine,
        accepts_of_looks (Or.inl (looksLikeInvoke_invokeLine callee (depth + 1)).1),
        entries_lines_append, plainEntries_lines, Scan.entries_append, List.foldl_append,
        hinner, hinnerFinal, hclose, hcloseFinal, List.tail_cons, houter, true_and]
      exact ⟨seen₂, houterFinal⟩

theorem scan_instruction (own : ProgramId) (i : Instruction)
    (h : i.body.Messages fun message => ¬ Confusing message) (seen : Bool) :
    Scan.entries own.text ⟨[], seen⟩ ((i.entries own).map Entry.line) = i.entries own ∧
      ∃ seen', ((i.entries own).map Entry.line).foldl (Scan.step own.text) ⟨[], seen⟩ =
        ⟨[], seen'⟩ := by
  obtain ⟨hinner, seen₁, hinnerFinal⟩ := scan_forest own i.body h i.program 1 []
    (seen || decide (i.program.text = own.text))
  obtain ⟨hclose, hcloseFinal⟩ := scan_ending own.text ⟨[i.program.text], seen₁⟩ i.program i.ending
  simp only [Instruction.entries, List.map_cons, Scan.entries, List.foldl_cons, step_invokeLine,
    accepts_of_looks (Or.inl (looksLikeInvoke_invokeLine i.program 1).1), entries_lines_append,
    plainEntries_lines, Scan.entries_append, List.foldl_append, hinner, hinnerFinal, hclose,
    hcloseFinal, List.tail_cons, true_and]
  exact ⟨seen₁, rfl⟩

theorem scan_transaction (own : ProgramId) (tx : Transaction)
    (h : tx.Messages fun message => ¬ Confusing message) (seen : Bool) :
    Scan.entries own.text ⟨[], seen⟩ (tx.logs own) = tx.entries own := by
  induction tx generalizing seen with
  | nil => rfl
  | cons i tx ih =>
      obtain ⟨hentries, seen', hfinal⟩ := scan_instruction own i (h i List.mem_cons_self) seen
      have hrest := ih (fun other hother => h other (List.mem_cons_of_mem _ hother)) seen'
      unfold Transaction.logs Transaction.entries at hrest ⊢
      rw [List.flatMap_cons, entries_lines_append, Scan.entries_append, hentries, hfinal, hrest]

/-- The decoder of a program. -/
def ProgramId.decoder (own : ProgramId) (types : Dict String TypeDefinition)
    (events : Dict (List UInt8) String) (depth : Nat) : AnchorIdlDecoder where
  programId := own.text
  types := types
  events := events
  depth := depth

/-- Without confusing messages the decoder returns exactly the events of its own program. -/
theorem decodeLogs_of_harmless (own : ProgramId) (types : Dict String TypeDefinition)
    (events : Dict (List UInt8) String) (depth : Nat) (tx : Transaction)
    (h : tx.Messages fun message => ¬ Confusing message) :
    (own.decoder types events depth).decodeLogs (tx.logs own) =
      (own.decoder types events depth).decodeOwn (tx.entries own) 0 := by
  rw [decodeLogs_eq_decodeOwn]
  exact congrArg (fun entries => (own.decoder types events depth).decodeOwn entries 0)
    (scan_transaction own tx h false)

/-! ## Confusing messages -/

/-- `PUMPSWAP_PROGRAM_ID` -/
def pumpswapProgram : ProgramId where
  text := "pAMMBay6oceH9fJKBRHGP5D4bD4sWpmSwMn52FMfXEA"
  base58 := by decide
  size := by decide

def systemProgram : ProgramId where
  text := "11111111111111111111111111111111"
  base58 := by decide
  size := by decide

theorem ProgramId.exists_other (own : ProgramId) : ∃ other : ProgramId, other.text ≠ own.text := by
  by_cases h : systemProgram.text = own.text
  · refine ⟨pumpswapProgram, fun heq => ?_⟩
    rw [← h] at heq
    exact absurd heq (by decide)
  · exact ⟨systemProgram, h⟩

/-- A router calls the own program, which logs the message and then an event. -/
def routedTransaction (own router : ProgramId) (message : String) (payload : List UInt8) :
    Transaction :=
  [{ program := router
     body := .invoke own (.log message (.data [payload] .done)) {} .done }]

/-- After a confusing message the own program is not on top of the stack any more. -/
theorem step_confusing {own router : ProgramId} {message : String} (h : Confusing message)
    (hrouter : router.text ≠ own.text) (seen : Bool) :
    ∃ top below seen', top ≠ own.text ∧
      Scan.step own.text ⟨[own.text, router.text], seen⟩ (logLine message) =
        ⟨top :: below, seen'⟩ := by
  by_cases hinvoke : LooksLikeInvoke (logLine message)
  · have hline : logLine message = "Program" ++ " " ++ "log:" ++ " " ++ message := by
      unfold logLine
      apply String.toList_injective
      simp [String.toList_append]
    have hword : secondWord (logLine message) = "log:" := by
      rw [hline]
      exact secondWord_append (by decide) (by decide) message
    refine ⟨"log:", [own.text, router.text], seen || decide ("log:" = own.text), ?_, ?_⟩
    · intro heq
      exact own.colon_notMem (heq ▸ (by decide))
    · rw [Scan.step, if_pos hinvoke, hword]
  · have hreturn := h.resolve_left hinvoke
    exact ⟨router.text, [], seen, hrouter, step_return hinvoke hreturn⟩

theorem decodeOwn_of_none (d : AnchorIdlDecoder) {entries : List Entry}
    (h : ∀ entry ∈ entries, entry.own = false) (logIndex : Nat) :
    d.decodeOwn entries logIndex = .ok [] := by
  induction entries generalizing logIndex with
  | nil => rfl
  | cons entry entries ih =>
      rw [AnchorIdlDecoder.decodeOwn, h entry List.mem_cons_self, if_neg Bool.false_ne_true]
      exact ih (fun other hother => h other (List.mem_cons_of_mem _ hother)) _

/-- The event of the routed call is hidden. -/
theorem routed_hidden {own router : ProgramId} {message : String} (h : Confusing message)
    (hrouter : router.text ≠ own.text) (d : AnchorIdlDecoder) (hd : d.programId = own.text)
    (payload : List UInt8) :
    d.decodeLogs ((routedTransaction own router message payload).logs own) = .ok [] := by
  obtain ⟨top, below, seen', htop, hstep⟩ := step_confusing h hrouter true
  rw [decodeLogs_eq_decodeOwn, hd]
  refine decodeOwn_of_none d ?_ 0
  simp only [Transaction.logs, Transaction.entries, routedTransaction, Instruction.entries,
    Forest.entries, List.flatMap_cons, List.flatMap_nil, List.map_cons, List.map_append,
    plainEntries_lines, List.cons_append, List.nil_append, List.append_nil,
    Scan.entries, step_invokeLine, decide_true, Bool.or_true, hstep,
    accepts_of_looks (Or.inl (looksLikeInvoke_invokeLine router 1).1),
    accepts_of_looks (Or.inl (looksLikeInvoke_invokeLine own (1 + 1)).1),
    accepts_of_not_data (logLine_not_data message), accepts_dataLine,
    step_quiet (dataLine_quiet [payload]), Scan.entries_append, (scan_ending _ _ _ _).1]
  have hplain : ∀ entry, entry ∈ plainEntries (Ending.lines {} own) ∨
      entry ∈ plainEntries (Ending.lines {} router) → entry.own = false :=
    fun entry hentry => hentry.elim (plainEntries_own _ entry) (plainEntries_own _ entry)
  simpa [htop] using hplain

/-- The tree has it. -/
theorem routed_entries (own router : ProgramId) (message : String) (payload : List UInt8) :
    ∃ before after, (routedTransaction own router message payload).entries own =
      before ++ { line := dataLine [payload], own := true } :: after ∧
      (∀ entry ∈ before, entry.own = false) ∧ ∀ entry ∈ after, entry.own = false := by
  refine ⟨[⟨invokeLine router 1, false⟩, ⟨invokeLine own 2, false⟩, ⟨logLine message, false⟩],
    plainEntries (Ending.lines {} own) ++ plainEntries (Ending.lines {} router), ?_, ?_, ?_⟩
  · simp [Transaction.entries, routedTransaction, Instruction.entries, Forest.entries]
  · simp
  · intro entry hentry
    exact (List.mem_append.mp hentry).elim (plainEntries_own _ entry) (plainEntries_own _ entry)

theorem decodeOwn_ne_nil (d : AnchorIdlDecoder) {before after : List Entry} {line : String}
    (hbefore : ∀ entry ∈ before, entry.own = false) (hafter : ∀ entry ∈ after, entry.own = false)
    (logIndex : Nat) :
    d.decodeOwn (before ++ { line := line, own := true } :: after) logIndex ≠ .ok [] := by
  induction before generalizing logIndex with
  | nil =>
      rw [List.nil_append, AnchorIdlDecoder.decodeOwn, if_pos rfl, decodeOwn_of_none d hafter]
      cases d.decodeEvent line logIndex with
      | error e => exact fun h => by cases h
      | ok event => exact fun h => by cases h
  | cons entry before ih =>
      rw [List.cons_append, AnchorIdlDecoder.decodeOwn, hbefore entry List.mem_cons_self,
        if_neg Bool.false_ne_true]
      exact ih (fun other hother => hbefore other (List.mem_cons_of_mem _ hother)) _

/-- The decoder is right on all transactions with messages from a vocabulary exactly when no
message of the vocabulary is confusing. -/
theorem decodeLogs_right_iff (own : ProgramId) (types : Dict String TypeDefinition)
    (events : Dict (List UInt8) String) (depth : Nat) (T : String → Prop) :
    (∀ tx : Transaction, tx.Messages T →
      (own.decoder types events depth).decodeLogs (tx.logs own) =
        (own.decoder types events depth).decodeOwn (tx.entries own) 0) ↔
      ∀ message, T message → ¬ Confusing message := by
  constructor
  · intro hright message hmessage hconfusing
    obtain ⟨router, hrouter⟩ := own.exists_other
    have hmessages : (routedTransaction own router message []).Messages T := by
      intro i hi
      rw [List.mem_singleton.mp hi]
      exact ⟨⟨hmessage, trivial⟩, trivial⟩
    have hequal := hright _ hmessages
    rw [routed_hidden hconfusing hrouter _ rfl] at hequal
    obtain ⟨before, after, hentries, hbefore, hafter⟩ := routed_entries own router message []
    rw [hentries] at hequal
    exact decodeOwn_ne_nil _ hbefore hafter 0 hequal.symm
  · intro hharmless tx hmessages
    exact decodeLogs_of_harmless own types events depth tx
      fun i hi => (hmessages i hi).mono hharmless

/-- A decoder that knows one event without fields. -/
def poolDecoder : AnchorIdlDecoder :=
  pumpswapProgram.decoder (Dict.empty.set "CreatePoolEvent" (.struct []))
    (Dict.empty.set [177, 49, 12, 210, 160, 118, 167, 116] "CreatePoolEvent") 1

def poolPayload : List UInt8 := [177, 49, 12, 210, 160, 118, 167, 116]

/-- The own program runs, and then another program closes its own invocation with a message and
writes the event. -/
def forgingTransaction : Transaction :=
  [{ program := pumpswapProgram, body := .done },
    { program := systemProgram, body := .log "transfer success" (.data [poolPayload] .done) }]

/-- A message hides an event of the own program, and another one lets a foreign event through. -/
theorem messages_hide_and_forge :
    ((poolDecoder.decodeLogs ((routedTransaction pumpswapProgram systemProgram
        "swap success" poolPayload).logs pumpswapProgram)).toOption.map
        (List.map AnchorEvent.name) = some [] ∧
      (poolDecoder.decodeOwn ((routedTransaction pumpswapProgram systemProgram
        "swap success" poolPayload).entries pumpswapProgram) 0).toOption.map
        (List.map AnchorEvent.name) = some ["CreatePoolEvent"]) ∧
    ((poolDecoder.decodeLogs (forgingTransaction.logs pumpswapProgram)).toOption.map
        (List.map AnchorEvent.name) = some ["CreatePoolEvent"] ∧
      (poolDecoder.decodeOwn (forgingTransaction.entries pumpswapProgram) 0).toOption.map
        (List.map AnchorEvent.name) = some []) := by
  decide +kernel

end SniperBot.Protocols
