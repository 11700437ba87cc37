import SniperBot.Basis.Binary64
import SniperBot.Paper.Broker

/-!
# The sell quotes of a close

The loop in `PaperBroker.close` (`broker.py`) that asks for a sell quote until there is one, or until
the pauses between the failed attempts add up to the timeout. The time that the attempts take is not
counted. The sum is a sum of binary64: pauses of zero never add up to anything, and the sum of
positive ones may stay below the timeout by a rounding error (`endsInTime_iff`).
-/

namespace SniperBot.Paper

open Basis

/-- The retry settings of a broker, in milliseconds and seconds. -/
structure ExitRetrySettings where
  exitRetryIntervalMs : Int := 1000
  exitRetryTimeoutSeconds : Int := 30
  deriving DecidableEq, Repr

namespace ExitRetrySettings

variable (settings : ExitRetrySettings)

/-- `_exit_retry_interval_seconds`, exactly. -/
def exactInterval : ℚ := ((max 0 settings.exitRetryIntervalMs : Int) : ℚ) / 1000

/-- `_exit_retry_interval_seconds`; the constructor raises `OverflowError` where it is infinite. -/
def intervalSeconds : WithTop ℚ := round64 settings.exactInterval

/-- `_exit_retry_timeout_seconds` -/
def timeoutSeconds : ℚ := ((max 0 settings.exitRetryTimeoutSeconds : Int) : ℚ)

/-- The constructor of the broker returns. -/
def Accepted : Prop := settings.intervalSeconds ≠ ⊤

instance : Decidable settings.Accepted := inferInstanceAs (Decidable (_ ≠ _))

end ExitRetrySettings

/-- What a call of `get_sell_quote` comes to. -/
inductive SellAnswer
  | quote (value : ExecutableQuote)
  /-- `asyncio.CancelledError` -/
  | cancelled
  /-- any other exception -/
  | failed

/-- How the loop ends: with the answer that ended it, after how many failed attempts. -/
structure QuoteLoopEnd where
  answer : SellAnswer
  failures : ℕ

/-- The quote that the rest of the close works with. -/
def QuoteLoopEnd.quote (ending : QuoteLoopEnd) : Option ExecutableQuote :=
  match ending.answer with
  | .quote value => some value
  | .cancelled | .failed => none

section Loop

variable (settings : ExitRetrySettings) (answers : ℕ → SellAnswer)

/-- The loop from an attempt on; none when the fuel does not reach its end. -/
def quoteLoop : ℕ → ℕ → WithTop ℚ → Option QuoteLoopEnd
  | 0, _, _ => none
  | fuel + 1, attempt, elapsed =>
      match answers attempt with
      | .quote value => some ⟨.quote value, attempt⟩
      | .cancelled => some ⟨.cancelled, attempt⟩
      | .failed =>
          if settings.timeoutSeconds ≤ elapsed then some ⟨.failed, attempt + 1⟩
          else quoteLoop fuel (attempt + 1) (add64 elapsed settings.intervalSeconds)

/-- What the loop leaves on the clock after some failed attempts. -/
def elapsedAfter (attempts : ℕ) : WithTop ℚ := sum64 settings.intervalSeconds attempts

/-- A pattern of quotes ends the loop with a quote or in the unrecoverable exit, after no more
failed attempts than the timeout has room for. -/
def EndsInTime : Prop :=
  ∀ answers : ℕ → SellAnswer, (∀ attempt, answers attempt ≠ .cancelled) →
    ∃ fuel ending, quoteLoop settings answers fuel 0 0 = some ending ∧
      (∀ req : CloseRequest, req.quote = ending.quote →
        (∃ value, ending.answer = .quote value) ∨ req.finalReason = "UNRECOVERABLE") ∧
      (0 < settings.exactInterval →
        (ending.failures : ℤ) ≤ ⌈settings.timeoutSeconds / settings.exactInterval⌉ + 1)

/-! ## Ends -/

variable {settings answers}

/-- As soon as the sum of the pauses reaches the timeout, the next failed attempt is the last one. -/
theorem quoteLoop_ends (rest attempt : ℕ) (hanswers : ∀ n, answers n ≠ .cancelled)
    (h : settings.timeoutSeconds ≤ elapsedAfter settings (attempt + rest)) :
    ∃ ending, quoteLoop settings answers (rest + 1) attempt (elapsedAfter settings attempt) =
        some ending ∧ ending.answer ≠ .cancelled ∧ ending.failures ≤ attempt + rest + 1 := by
  induction rest generalizing attempt with
  | zero =>
    rw [quoteLoop]
    cases hanswer : answers attempt with
    | quote value => exact ⟨_, rfl, nofun, by dsimp only; omega⟩
    | cancelled => exact absurd hanswer (hanswers attempt)
    | failed =>
      rw [Nat.add_zero] at h
      dsimp only
      rw [if_pos h]
      exact ⟨_, rfl, nofun, le_rfl⟩
  | succ rest ih =>
    rw [quoteLoop]
    cases hanswer : answers attempt with
    | quote value => exact ⟨_, rfl, nofun, by dsimp only; omega⟩
    | cancelled => exact absurd hanswer (hanswers attempt)
    | failed =>
      dsimp only
      split
      · exact ⟨_, rfl, nofun, by dsimp only; omega⟩
      · have hnext : settings.timeoutSeconds ≤ elapsedAfter settings (attempt + 1 + rest) := by
          rwa [Nat.add_right_comm, Nat.add_assoc]
        obtain ⟨ending, hending, hanswer, hfailures⟩ := ih _ hnext
        exact ⟨ending, hending, hanswer, by omega⟩

/-- Without a quote the loop ends where the sum of the pauses reaches the timeout. -/
theorem quoteLoop_failed {fuel : ℕ} (attempt : ℕ) {ending : QuoteLoopEnd}
    (hanswers : ∀ n, answers n = .failed)
    (h : quoteLoop settings answers fuel attempt (elapsedAfter settings attempt) = some ending) :
    ∃ last, settings.timeoutSeconds ≤ elapsedAfter settings last ∧ ending.failures = last + 1 := by
  induction fuel generalizing attempt with
  | zero => cases h
  | succ fuel ih =>
    rw [quoteLoop, hanswers] at h
    dsimp only at h
    split at h
    · cases h
      exact ⟨attempt, ‹_›, rfl⟩
    · exact ih _ h

/-! ## The condition -/

variable (settings) in
/-- The timeout is zero, or no more positive pauses than it has room for add up to it. -/
def SumsReachTimeout : Prop :=
  settings.timeoutSeconds = 0 ∨ 0 < settings.exactInterval ∧
    ∃ n : ℕ, (n : ℤ) ≤ ⌈settings.timeoutSeconds / settings.exactInterval⌉ ∧
      settings.timeoutSeconds ≤ elapsedAfter settings n

theorem timeoutSeconds_nonneg : 0 ≤ settings.timeoutSeconds :=
  Int.cast_nonneg (le_max_left _ _)

theorem exactInterval_nonneg : 0 ≤ settings.exactInterval :=
  div_nonneg (Int.cast_nonneg (le_max_left _ _)) (by norm_num)

theorem elapsedAfter_of_interval_zero (h : settings.exactInterval = 0) (attempts : ℕ) :
    elapsedAfter settings attempts = 0 := by
  have hinterval : settings.intervalSeconds = 0 := by
    have hzero := round64_natCast (n := 0) (by norm_num)
    rw [ExitRetrySettings.intervalSeconds, h]
    simpa using hzero
  rw [elapsedAfter, hinterval, sum64_zero]

theorem sumsReach_of_endsInTime (h : EndsInTime settings) : SumsReachTimeout settings := by
  obtain ⟨fuel, ending, hending, -, hbound⟩ := h (fun _ => .failed) (fun _ => nofun)
  obtain ⟨last, hreach, hfailures⟩ := quoteLoop_failed 0 (fun _ => rfl) hending
  rcases exactInterval_nonneg.eq_or_lt with hzero | hpos
  · -- pauses of zero add up to zero
    rw [elapsedAfter_of_interval_zero hzero.symm] at hreach
    exact .inl (le_antisymm (by exact_mod_cast hreach) timeoutSeconds_nonneg)
  · have hroom := hbound hpos
    exact .inr ⟨hpos, last, by omega, hreach⟩

theorem endsInTime_of_sumsReach (h : SumsReachTimeout settings) : EndsInTime settings := by
  intro answers hanswers
  have hreach : ∃ n : ℕ, settings.timeoutSeconds ≤ elapsedAfter settings n ∧
      (0 < settings.exactInterval →
        (n : ℤ) ≤ ⌈settings.timeoutSeconds / settings.exactInterval⌉) := by
    rcases h with hzero | ⟨-, n, hn, hsum⟩
    · refine ⟨0, ?_, fun hpos => Int.ceil_nonneg (div_nonneg timeoutSeconds_nonneg hpos.le)⟩
      rw [hzero]
      exact le_rfl
    · exact ⟨n, hsum, fun _ => hn⟩
  obtain ⟨n, hsum, hn⟩ := hreach
  obtain ⟨ending, hending, hanswer, hfailures⟩ :=
    quoteLoop_ends n 0 hanswers (by rwa [Nat.zero_add])
  refine ⟨n + 1, ending, hending, ?_, fun hpos => ?_⟩
  · intro req hquote
    unfold CloseRequest.finalReason
    rw [hquote, QuoteLoopEnd.quote]
    cases h : ending.answer with
    | quote value => exact .inl ⟨value, rfl⟩
    | cancelled => exact absurd h hanswer
    | failed => exact .inr rfl
  · have hroom := hn hpos
    omega

/-- Pauses of whole seconds lose nothing. -/
theorem sumsReach_of_whole {seconds timeout : ℕ} (hseconds : 0 < seconds)
    (hsmall : timeout + seconds ≤ 2 ^ 53) :
    SumsReachTimeout ⟨1000 * seconds, timeout⟩ := by
  have hinterval : ExitRetrySettings.exactInterval ⟨1000 * seconds, timeout⟩ = seconds := by
    rw [ExitRetrySettings.exactInterval, max_eq_right (by positivity)]
    push_cast
    ring
  have htimeout : ExitRetrySettings.timeoutSeconds ⟨1000 * seconds, timeout⟩ = timeout := by
    rw [ExitRetrySettings.timeoutSeconds, max_eq_right (by positivity)]
    rfl
  have hround : ExitRetrySettings.intervalSeconds ⟨1000 * seconds, timeout⟩ =
      ((seconds : ℚ) : WithTop ℚ) := by
    rw [ExitRetrySettings.intervalSeconds, hinterval, round64_natCast (by omega)]
  have hquotient : (0 : ℚ) ≤ timeout / seconds := by positivity
  have hseconds' : (0 : ℚ) < seconds := Nat.cast_pos.mpr hseconds
  -- the least number of pauses that are no shorter than the timeout
  set n := ⌈(timeout : ℚ) / seconds⌉₊ with hn
  have hreach : (timeout : ℚ) ≤ ((n * seconds : ℕ) : ℚ) := by
    rw [Nat.cast_mul, ← div_le_iff₀ hseconds']
    exact Nat.le_ceil _
  have hexact : n * seconds ≤ 2 ^ 53 := by
    have hlt := mul_lt_mul_of_pos_right (Nat.ceil_lt_add_one hquotient) hseconds'
    rw [add_mul, one_mul, div_mul_cancel₀ _ hseconds'.ne'] at hlt
    have hlt' : n * seconds < timeout + seconds := by exact_mod_cast hlt
    omega
  refine .inr ⟨hinterval ▸ hseconds', n, ?_, ?_⟩
  · rw [hinterval, htimeout, hn, Int.natCast_ceil_eq_ceil hquotient]
  · rw [elapsedAfter, hround, sum64_natCast hexact, htimeout]
    exact_mod_cast hreach

end Loop

/-- The quote loop ends with a quote or in the unrecoverable exit, in as many attempts as the timeout
has room for, exactly when the timeout is zero or the sum of that many pauses reaches it. -/
theorem endsInTime_iff (settings : ExitRetrySettings) :
    EndsInTime settings ↔ SumsReachTimeout settings :=
  ⟨sumsReach_of_endsInTime, endsInTime_of_sumsReach⟩

theorem endsInTime_default : ExitRetrySettings.Accepted {} ∧ EndsInTime {} := by
  have haccepted : ExitRetrySettings.Accepted {} := by decide +kernel
  have hreach : SumsReachTimeout {} := sumsReach_of_whole one_pos (by norm_num : 30 + 1 ≤ 2 ^ 53)
  exact ⟨haccepted, (endsInTime_iff {}).mpr hreach⟩

/-- Pauses of zero never end the loop; ten pauses of a tenth of a second are less than a second. -/
theorem not_endsInTime :
    (ExitRetrySettings.Accepted ⟨0, 30⟩ ∧ ¬ EndsInTime ⟨0, 30⟩) ∧
      ExitRetrySettings.Accepted ⟨100, 1⟩ ∧ ¬ EndsInTime ⟨100, 1⟩ := by
  have hcomputed : (ExitRetrySettings.Accepted ⟨0, 30⟩ ∧ ExitRetrySettings.Accepted ⟨100, 1⟩) ∧
      ⌈ExitRetrySettings.timeoutSeconds ⟨100, 1⟩ / ExitRetrySettings.exactInterval ⟨100, 1⟩⌉ = 10 ∧
        ∀ n : Fin 11, ¬ ((1 : ℚ) : WithTop ℚ) ≤ elapsedAfter ⟨100, 1⟩ n := by
    decide +kernel
  obtain ⟨⟨hzero, htenth⟩, hceil, hshort⟩ := hcomputed
  refine ⟨⟨hzero, fun h => ?_⟩, htenth, fun h => ?_⟩
  · rcases sumsReach_of_endsInTime h with htimeout | ⟨hinterval, -⟩
    · norm_num [ExitRetrySettings.timeoutSeconds] at htimeout
    · norm_num [ExitRetrySettings.exactInterval] at hinterval
  · rcases sumsReach_of_endsInTime h with htimeout | ⟨-, n, hroom, hreach⟩
    · norm_num [ExitRetrySettings.timeoutSeconds] at htimeout
    · rw [hceil] at hroom
      exact hshort ⟨n, by omega⟩ hreach

end SniperBot.Paper
