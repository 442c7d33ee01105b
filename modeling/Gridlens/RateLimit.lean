import Mathlib.Data.Rat.Cast.Order
import Mathlib.Tactic.FieldSimp
import Gridlens.Flow.Credit
import Gridlens.Python

/-!
# The rate limiter

`gridlens.ingest.ratelimit`, over an ordered field in place of floats. A caller
takes its token while it holds the lock, so a run is the list of clock readings
the callers make there, in lock order; each is released its shortfall after its
reading. The balance goes below zero while callers queue.

What ties the balance to the releases is the credit left at a release: the
tokens over the one just taken, none when the caller had to wait for it. One
release after another is paid from that credit (`pays_acquire`), and
`Flow.count_le` bounds how many a window holds.
-/

namespace Gridlens

variable {α : Type} [Field α] [LinearOrder α] [IsStrictOrderedRing α]

/-! ## `TokenBucket` -/

structure TokenBucket (α : Type) [Field α] [LinearOrder α] where
  rate : α
  burst : Int
  tokens : α
  updated : α
  rate_pos : 0 < rate
  burst_pos : 1 ≤ burst
  tokens_le : tokens ≤ burst

/-- `TokenBucket(rate_per_second, burst)`, at this reading of the clock. -/
def TokenBucket.init (ratePerSecond : α) (burst : Int) (clock : α) : Py (TokenBucket α) :=
  if hrate : ratePerSecond ≤ 0 then raise .ValueError [.text "rate_per_second must be positive"]
  else if hburst : burst < 1 then raise .ValueError [.text "burst must be at least 1"]
  else .ok {
    rate := ratePerSecond
    burst := burst
    tokens := burst
    updated := clock
    rate_pos := not_le.mp hrate
    burst_pos := not_lt.mp hburst
    tokens_le := le_refl _ }

/-- The tokens a caller finds: what was left and what accrued, up to the burst. -/
def TokenBucket.refilled (b : TokenBucket α) (now : α) : α :=
  min (b.burst : α) (b.tokens + (now - b.updated) * b.rate)

/-- `acquire`, from taking the lock to giving it back: the shortfall to sleep
for, and the bucket as it is left. -/
def TokenBucket.acquire (b : TokenBucket α) (now : α) : α × TokenBucket α :=
  -- the balance may go negative: that is what makes concurrent callers queue
  (max 0 ((1 - b.refilled now) / b.rate),
    { b with
      tokens := b.refilled now - 1
      updated := now
      tokens_le := by
        have hle : b.refilled now ≤ b.burst := min_le_left _ _
        linarith })

omit [IsStrictOrderedRing α] in
theorem init_ok {rate : α} {burst : Int} {started : α} {b : TokenBucket α}
    (h : TokenBucket.init rate burst started = .ok b) : rate = b.rate ∧ burst = b.burst := by
  unfold TokenBucket.init at h
  split at h
  · cases h
  · split at h
    · cases h
    · cases h
      exact ⟨rfl, rfl⟩

/-! ## Callers in lock order -/

/-- A caller's turn: the clock when it has the lock, the tokens it finds, and
what `acquire` returns. -/
structure Turn (α : Type) where
  reading : α
  balance : α
  shortfall : α

/-- When the caller goes on. -/
def Turn.release (t : Turn α) : α := t.reading + t.shortfall

def TokenBucket.turn (b : TokenBucket α) (now : α) : Turn α :=
  ⟨now, b.refilled now, (b.acquire now).1⟩

/-- The turns of the callers that take the lock at these readings. -/
def TokenBucket.turns (b : TokenBucket α) : List α → List (Turn α)
  | [] => []
  | now :: readings => b.turn now :: (b.acquire now).2.turns readings

/-- The releases between `start` and `T` later. -/
def releasesWithin (turns : List (Turn α)) (start T : α) : List α :=
  (turns.map Turn.release).filter fun time => start ≤ time ∧ time ≤ start + T

/-! ## One turn -/

section Turn

variable {b : TokenBucket α} {now : α}

/-- A caller that finds a token goes on at once. -/
theorem shortfall_eq_zero (h : 1 ≤ b.refilled now) : (b.acquire now).1 = 0 :=
  max_eq_left (div_nonpos_of_nonpos_of_nonneg (by linarith) b.rate_pos.le)

/-- One that does not waits until its token has accrued. -/
theorem shortfall_mul_rate (h : b.refilled now < 1) :
    (b.acquire now).1 * b.rate = 1 - b.refilled now := by
  have hpos : 0 ≤ (1 - b.refilled now) / b.rate := div_nonneg (by linarith) b.rate_pos.le
  show max 0 ((1 - b.refilled now) / b.rate) * b.rate = _
  rw [max_eq_right hpos, div_mul_cancel₀ _ b.rate_pos.ne']

theorem shortfall_pos_iff : 0 < (b.acquire now).1 ↔ b.refilled now < 1 := by
  constructor
  · intro hwaits
    by_contra hfull
    rw [shortfall_eq_zero (not_lt.mp hfull)] at hwaits
    exact lt_irrefl _ hwaits
  · intro hempty
    have hmul := shortfall_mul_rate hempty
    by_contra hzero
    have hle := mul_nonpos_of_nonpos_of_nonneg (not_lt.mp hzero) b.rate_pos.le
    linarith

/-- The credit a release leaves. -/
def Turn.paid (t : Turn α) : Flow.Paid α := ⟨t.release, max 0 (t.balance - 1)⟩

/-- What the release of a turn leaves behind, in tokens. -/
theorem release_mul_rate (b : TokenBucket α) (now : α) :
    (b.turn now).release * b.rate + (b.refilled now - 1) =
      now * b.rate + (b.turn now).paid.credit := by
  show (now + (b.acquire now).1) * b.rate + (b.refilled now - 1) =
    now * b.rate + max 0 (b.refilled now - 1)
  rcases lt_or_ge (b.refilled now) 1 with hempty | hfull
  · rw [max_eq_left (by linarith), add_mul, shortfall_mul_rate hempty]
    ring
  · rw [max_eq_right (by linarith), shortfall_eq_zero hfull]
    ring

/-- The next caller is released a token's time later, less what was left. -/
theorem pays_acquire {next : α} (hclock : now ≤ next) :
    Flow.Pays b.rate (b.turn now).paid ((b.acquire now).2.turn next).paid := by
  have hfirst := release_mul_rate b now
  have hsecond : ((b.acquire now).2.turn next).release * b.rate +
      ((b.acquire now).2.refilled next - 1) =
        next * b.rate + ((b.acquire now).2.turn next).paid.credit :=
    release_mul_rate (b.acquire now).2 next
  have haccrued : 0 ≤ (next - now) * b.rate := mul_nonneg (by linarith) b.rate_pos.le
  have hrefilled : (b.acquire now).2.refilled next ≤ b.refilled now - 1 + (next - now) * b.rate :=
    min_le_right _ _
  have hleft : (b.acquire now).2.refilled next - 1 ≤ ((b.acquire now).2.turn next).paid.credit :=
    le_max_right _ _
  have hnonneg : 0 ≤ ((b.acquire now).2.turn next).paid.credit := le_max_left _ _
  constructor
  · show (b.turn now).release ≤ ((b.acquire now).2.turn next).release
    refine le_of_mul_le_mul_right ?_ b.rate_pos
    rcases le_total (b.refilled now - 1) 0 with hempty | hfull
    · have hnone : (b.turn now).paid.credit = 0 := max_eq_left hempty
      linarith
    · have hsome : (b.turn now).paid.credit = b.refilled now - 1 := max_eq_right hfull
      linarith
  · show ((b.acquire now).2.turn next).paid.credit ≤ (b.turn now).paid.credit +
      b.rate * (((b.acquire now).2.turn next).release - (b.turn now).release) - 1
    rw [mul_comm, sub_mul]
    linarith

end Turn

/-! ## A run -/

section Run

variable {b : TokenBucket α} {started : α} {readings : List α}

/-- What a turn is, against the settings of its bucket. -/
structure Turn.Fair (rate : α) (burst : Int) (t : Turn α) : Prop where
  balance_le : t.balance ≤ burst
  nonneg : 0 ≤ t.shortfall
  waits : 0 < t.shortfall ↔ t.balance < 1
  accrues : 0 < t.shortfall → t.balance + t.shortfall * rate = 1

theorem fair_turn (b : TokenBucket α) (now : α) : (b.turn now).Fair b.rate b.burst where
  balance_le := min_le_left _ _
  nonneg := le_max_left _ _
  waits := shortfall_pos_iff
  accrues := by
    intro hwaits
    have hmul := shortfall_mul_rate (shortfall_pos_iff.mp hwaits)
    show b.refilled now + (b.acquire now).1 * b.rate = 1
    linarith

/-- Every turn of a run is fair, and each release pays for the next. -/
theorem turns_fair (b : TokenBucket α) (hclock : readings.Pairwise (· ≤ ·)) :
    (∀ t ∈ b.turns readings, t.Fair b.rate b.burst) ∧
      ((b.turns readings).map Turn.paid).IsChain (Flow.Pays b.rate) := by
  induction readings generalizing b with
  | nil => exact ⟨fun _ ht => absurd ht List.not_mem_nil, List.isChain_nil⟩
  | cons now readings ih =>
      rw [List.pairwise_cons] at hclock
      obtain ⟨hfair, hchain⟩ := ih (b.acquire now).2 hclock.2
      refine ⟨fun t ht => ?_, ?_⟩
      · rcases List.mem_cons.mp ht with rfl | ht
        · exact fair_turn b now
        · exact hfair t ht
      · cases readings with
        | nil => exact List.isChain_singleton _
        | cons next readings =>
            exact List.isChain_cons_cons.mpr
              ⟨pays_acquire (hclock.1 next List.mem_cons_self), hchain⟩

/-- The credit of a turn is what a burst leaves at most. -/
theorem Turn.Fair.credit {t : Turn α} {rate : α} {burst : Int} (h : t.Fair rate burst)
    (hburst : (1 : α) ≤ burst) : 0 ≤ t.paid.credit ∧ t.paid.credit ≤ burst - 1 :=
  ⟨le_max_left _ _, max_le (by linarith) (by linarith [h.balance_le])⟩

/-- However many callers, the limiter keeps its rate: they are released in the
order of the lock, no window holds more releases than the burst and what
accrues in it, and a caller waits only for a token, until it is there. -/
theorem rate_never_exceeded {rate : α} {burst : Int} {started : α} {b : TokenBucket α}
    (hinit : TokenBucket.init rate burst started = .ok b) (readings : List α)
    (hclock : readings.Pairwise (· ≤ ·)) :
    ((b.turns readings).map Turn.release).Pairwise (· ≤ ·) ∧
      (∀ start T : α, 0 ≤ T →
        ((releasesWithin (b.turns readings) start T).length : α) ≤ burst + rate * T) ∧
      ∀ t ∈ b.turns readings, t.Fair rate burst := by
  obtain ⟨rfl, rfl⟩ := init_ok hinit
  obtain ⟨hfair, hchain⟩ := turns_fair b hclock
  have hburst : (1 : α) ≤ b.burst := by exact_mod_cast b.burst_pos
  have hcredit : ∀ p ∈ (b.turns readings).map Turn.paid,
      0 ≤ p.credit ∧ p.credit ≤ (b.burst : α) - 1 := by
    intro p hp
    obtain ⟨t, ht, rfl⟩ := List.mem_map.mp hp
    exact (hfair t ht).credit hburst
  refine ⟨?_, fun start T hT => ?_, hfair⟩
  · exact List.pairwise_map.mpr
      ((List.pairwise_map.mp (List.isChain_iff_pairwise.mp hchain)).imp fun h => h.1)
  · have hcount := Flow.count_le b.rate_pos.le hchain hcredit (by linarith) start hT
    rw [List.filter_map, List.length_map, sub_add_cancel] at hcount
    unfold releasesWithin
    rw [List.filter_map, List.length_map]
    exact hcount

end Run

/-- Two tokens a second, one at most, asked for three times in a second. -/
theorem rate_never_exceeded_queue : ∃ b : TokenBucket ℚ, TokenBucket.init 2 1 0 = .ok b ∧
    (b.turns [0, 0, 1 / 2]).map Turn.shortfall = [0, 1 / 2, 1 / 2] ∧
    ((b.turns [0, 0, 1 / 2]).map Turn.release).Pairwise (· ≤ ·) ∧
      (∀ start T : ℚ, 0 ≤ T →
        ((releasesWithin (b.turns [0, 0, 1 / 2]) start T).length : ℚ) ≤ (1 : Int) + 2 * T) ∧
      ∀ t ∈ b.turns [0, 0, 1 / 2], t.Fair 2 1 :=
  ⟨_, rfl, by decide +kernel, rate_never_exceeded rfl [0, 0, 1 / 2] (by decide +kernel)⟩

end Gridlens
