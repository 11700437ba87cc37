import SniperBot.Basis.Base64
import SniperBot.Protocols.Borsh

/-!
# Anchor events in program logs

`AnchorIdlDecoder.decode_logs` (`protocols/anchor.py`). The decoder walks over the log lines of a
transaction, keeps a stack of program ids that it reads off the text of the lines, and decodes a
`Program data:` line when its own program is on top of that stack, or when the stack is empty and
its own program has been on it.
-/

namespace SniperBot.Protocols

open Basis Text

structure AnchorEvent where
  name : String
  fields : List (String × Value)
  logIndex : Nat
  deriving Repr

/-- A decoder for the IDL of one program; `depth` bounds how deep its types are nested. -/
structure AnchorIdlDecoder where
  programId : String
  types : Dict String TypeDefinition
  events : Dict (List UInt8) String
  depth : Nat

/-! ## One line -/

/-- The body of the loop for a line that is decoded. -/
def AnchorIdlDecoder.decodeEvent (d : AnchorIdlDecoder) (line : String) (logIndex : Nat) :
    Except AnchorDecodeError AnchorEvent :=
  match Base64.decode (strip (removePrefix "Program data: " line)) with
  | none => throw .invalidBase64
  | some payload =>
      if payload.length < 8 then throw .shortPayload
      else
        match d.events.get? (payload.take 8) with
        | none => throw (.unknownDiscriminator d.programId (payload.take 8))
        | some name => do
            let fields ← decodeStruct d.types d.depth name (payload.drop 8)
            return { name := name, fields := fields, logIndex := logIndex }

/-- A line that the decoder takes for the start of an invocation. -/
def LooksLikeInvoke (line : String) : Prop :=
  StartsWith "Program " line ∧ Contains " invoke [" line

instance (line : String) : Decidable (LooksLikeInvoke line) :=
  inferInstanceAs (Decidable (_ ∧ _))

/-- A line that the decoder takes for the end of an invocation. -/
def LooksLikeReturn (line : String) : Prop :=
  StartsWith "Program " line ∧ (EndsWith " success" line ∨ Contains " failed:" line)

instance (line : String) : Decidable (LooksLikeReturn line) :=
  inferInstanceAs (Decidable (_ ∧ _))

/-! ## All lines -/

/-- The loop of `decode_logs`; the top of the stack is its head. -/
def AnchorIdlDecoder.decodeFrom (d : AnchorIdlDecoder) :
    List String → Nat → List String → Bool → Except AnchorDecodeError (List AnchorEvent)
  | [], _, _, _ => return []
  | line :: lines, logIndex, stack, seen =>
      if LooksLikeInvoke line then
        let programId := secondWord line
        d.decodeFrom lines (logIndex + 1) (programId :: stack)
          (seen || decide (programId = d.programId))
      else if LooksLikeReturn line then d.decodeFrom lines (logIndex + 1) stack.tail seen
      else if ¬ StartsWith "Program data: " line then
        d.decodeFrom lines (logIndex + 1) stack seen
      else if stack ≠ [] ∧ stack.head? ≠ some d.programId then
        d.decodeFrom lines (logIndex + 1) stack seen
      else if stack = [] ∧ seen = false then d.decodeFrom lines (logIndex + 1) stack seen
      else do
        let event ← d.decodeEvent line logIndex
        return event :: (← d.decodeFrom lines (logIndex + 1) stack seen)

/-- `decode_logs` -/
def AnchorIdlDecoder.decodeLogs (d : AnchorIdlDecoder) (logs : List String) :
    Except AnchorDecodeError (List AnchorEvent) :=
  d.decodeFrom logs 0 [] false

/-! ## Which lines are decoded -/

/-- A log line and whether its event is attributed to the program of the decoder. -/
structure Entry where
  line : String
  own : Bool
  deriving DecidableEq, Repr

/-- The decodings, in order, of the attributed lines; the first error ends them. -/
def AnchorIdlDecoder.decodeOwn (d : AnchorIdlDecoder) :
    List Entry → Nat → Except AnchorDecodeError (List AnchorEvent)
  | [], _ => return []
  | entry :: entries, logIndex =>
      if entry.own then do
        let event ← d.decodeEvent entry.line logIndex
        return event :: (← d.decodeOwn entries (logIndex + 1))
      else d.decodeOwn entries (logIndex + 1)

/-- The stack that is read off the lines, and whether the own program has been on it. -/
structure Scan where
  stack : List String
  seen : Bool

def Scan.step (own : String) (scan : Scan) (line : String) : Scan :=
  if LooksLikeInvoke line then
    { stack := secondWord line :: scan.stack
      seen := scan.seen || decide (secondWord line = own) }
  else if LooksLikeReturn line then { scan with stack := scan.stack.tail }
  else scan

def Scan.accepts (own : String) (scan : Scan) (line : String) : Bool :=
  decide (¬ LooksLikeInvoke line ∧ ¬ LooksLikeReturn line ∧ StartsWith "Program data: " line ∧
    (scan.stack.head? = some own ∨ (scan.stack = [] ∧ scan.seen = true)))

/-- The entries as the decoder attributes them. -/
def Scan.entries (own : String) : Scan → List String → List Entry
  | _, [] => []
  | scan, line :: lines =>
      { line := line, own := scan.accepts own line } :: (scan.step own line).entries own lines

theorem Scan.entries_append (own : String) (scan : Scan) (lines more : List String) :
    scan.entries own (lines ++ more) =
      scan.entries own lines ++ (lines.foldl (Scan.step own) scan).entries own more := by
  induction lines generalizing scan with
  | nil => rfl
  | cons line lines ih => simp only [List.cons_append, entries, ih, List.foldl_cons]

/-- A data line is accepted unless another program is on top or the own one was never seen. -/
theorem accepts_data_iff (own : String) {line : String} (scan : Scan) (hinvoke : ¬ LooksLikeInvoke line)
    (hreturn : ¬ LooksLikeReturn line) (hdata : StartsWith "Program data: " line) :
    scan.accepts own line = true ↔ ¬ (scan.stack ≠ [] ∧ scan.stack.head? ≠ some own) ∧
      ¬ (scan.stack = [] ∧ scan.seen = false) := by
  rw [Scan.accepts, decide_eq_true_eq]
  cases hstack : scan.stack with
  | nil => simp [hinvoke, hreturn, hdata]
  | cons top below => simp [hinvoke, hreturn, hdata]

/-- One turn of the loop: the line is decoded if it is accepted, and the stack moves on. -/
theorem decodeFrom_cons (d : AnchorIdlDecoder) (line : String) (lines : List String)
    (logIndex : Nat) (scan : Scan) :
    d.decodeFrom (line :: lines) logIndex scan.stack scan.seen =
      if scan.accepts d.programId line then do
        let event ← d.decodeEvent line logIndex
        return event :: (← d.decodeFrom lines (logIndex + 1)
          (scan.step d.programId line).stack (scan.step d.programId line).seen)
      else d.decodeFrom lines (logIndex + 1) (scan.step d.programId line).stack
        (scan.step d.programId line).seen := by
  rw [AnchorIdlDecoder.decodeFrom]
  by_cases hinvoke : LooksLikeInvoke line
  · have haccepts : ¬ scan.accepts d.programId line = true :=
      fun h => (of_decide_eq_true h).1 hinvoke
    rw [if_pos hinvoke, if_neg haccepts, Scan.step, if_pos hinvoke]
  · rw [if_neg hinvoke]
    by_cases hreturn : LooksLikeReturn line
    · have haccepts : ¬ scan.accepts d.programId line = true :=
        fun h => (of_decide_eq_true h).2.1 hreturn
      rw [if_pos hreturn, if_neg haccepts, Scan.step, if_neg hinvoke, if_pos hreturn]
    · have hstep : scan.step d.programId line = scan := by
        rw [Scan.step, if_neg hinvoke, if_neg hreturn]
      rw [if_neg hreturn, hstep]
      by_cases hdata : StartsWith "Program data: " line
      · have haccepts := accepts_data_iff d.programId scan hinvoke hreturn hdata
        rw [if_neg (not_not.mpr hdata)]
        by_cases hother : scan.stack ≠ [] ∧ scan.stack.head? ≠ some d.programId
        · rw [if_pos hother, if_neg fun h => (haccepts.mp h).1 hother]
        · rw [if_neg hother]
          by_cases hunseen : scan.stack = [] ∧ scan.seen = false
          · rw [if_pos hunseen, if_neg fun h => (haccepts.mp h).2 hunseen]
          · rw [if_neg hunseen, if_pos (haccepts.mpr ⟨hother, hunseen⟩)]
      · have haccepts : ¬ scan.accepts d.programId line = true :=
          fun h => hdata (of_decide_eq_true h).2.2.1
        rw [if_pos hdata, if_neg haccepts]

/-- The loop of the source decodes exactly the lines it attributes. -/
theorem decodeFrom_eq_decodeOwn (d : AnchorIdlDecoder) (lines : List String) (logIndex : Nat)
    (scan : Scan) :
    d.decodeFrom lines logIndex scan.stack scan.seen =
      d.decodeOwn (scan.entries d.programId lines) logIndex := by
  induction lines generalizing logIndex scan with
  | nil => rfl
  | cons line lines ih => rw [decodeFrom_cons, ih, Scan.entries, AnchorIdlDecoder.decodeOwn]

theorem decodeLogs_eq_decodeOwn (d : AnchorIdlDecoder) (logs : List String) :
    d.decodeLogs logs = d.decodeOwn (Scan.entries d.programId ⟨[], false⟩ logs) 0 :=
  decodeFrom_eq_decodeOwn d logs 0 ⟨[], false⟩

end SniperBot.Protocols
