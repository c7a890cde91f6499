import SecondMind.Rates.TokenBucket
import Mathlib.Algebra.Order.Floor.Ring
import Mathlib.Data.Rat.Floor
import Mathlib.Tactic.FieldSimp

/-!
# The rate limit of an identity

`InMemorySpendStore.take` of `metering/adapters/inmemory.py`, and the script `_TAKE` of
`metering/adapters/redis_spend.py`: a bucket of `per_minute` tokens, refilled continuously.  A call
takes a token, or is told the seconds until the next one.  Times and tokens are exact.

* `take` — a call on a bucket of the process;
* `redisTake` — a call on a bucket in Redis, by a clock of milliseconds; what is not called for two
  minutes is dropped;
* `rate_limit_law` — both keep the law of a token bucket.
-/

namespace SecondMind

open Rates

namespace RateLimit

/-! ## In a process -/

/-- `take`, of the pair that is stored for the bucket: the wait, and the pair after it. -/
def take (perMinute : Nat) (state : Option (Bucket ℚ)) (now : ℚ) : Option ℚ × Bucket ℚ :=
  let b := state.getD ⟨perMinute, now⟩
  let tokens := min (perMinute : ℚ) (b.tokens + (now - b.at_) * perMinute / 60)
  if 1 ≤ tokens then (none, ⟨tokens - 1, now⟩)
  else (some ((1 - tokens) * 60 / perMinute), ⟨tokens, now⟩)

/-! ## In Redis -/

/-- The hash of a bucket. -/
structure RedisBucket where
  tokens : ℚ
  at_ : Int
  deriving DecidableEq

/-- `PEXPIRE`, in milliseconds. -/
def expiry : Int := 120000

/-- `_TAKE`: the milliseconds until the next token, and the hash after it. -/
def takeScript (rate : Nat) (state : Option RedisBucket) (now : Int) : Int × RedisBucket :=
  let b := (state.filter fun b => now < b.at_ + expiry).getD ⟨rate, now⟩
  let tokens := min (rate : ℚ) (b.tokens + ((now - b.at_ : Int) : ℚ) * rate / 60000)
  if 1 ≤ tokens then (0, ⟨tokens - 1, now⟩) else (⌈(1 - tokens) * 60000 / rate⌉, ⟨tokens, now⟩)

/-- `RedisSpendStore.take`. -/
def redisTake (perMinute : Nat) (state : Option RedisBucket) (now : Int) :
    Option ℚ × RedisBucket :=
  let (wait, b) := takeScript perMinute state now
  (if wait ≤ 0 then none else some ((wait : ℚ) / 1000), b)

/-! ## The rate -/

section

variable {perMinute : Nat} (h : 1 ≤ perMinute)

include h

theorem perMinute_pos : (0 : ℚ) < perMinute := by
  exact_mod_cast h

/-- `per_minute` tokens, and as many in a minute. -/
def rate : Rate ℚ where
  cap := perMinute
  speed := perMinute / 60
  one_le := by exact_mod_cast h
  pos := div_pos (perMinute_pos h) (by norm_num)

theorem take_tokens (state : Option (Bucket ℚ)) (now : ℚ) :
    min (perMinute : ℚ) ((state.getD ⟨perMinute, now⟩).tokens +
      (now - (state.getD ⟨perMinute, now⟩).at_) * perMinute / 60) = (rate h).level state now := by
  cases state with
  | none => simp [Rate.level, rate]
  | some b => simp only [Option.getD_some, Rate.level, rate, mul_div_assoc]

theorem take_follows : Follows (rate h) (take perMinute) id id where
  admits := by
    intro s t _
    have htokens := take_tokens h s t
    rw [Option.map_id, id, id]
    unfold take
    simp only [htokens]
    split
    · rename_i hone
      exact iff_of_true rfl hone
    · rename_i hone
      exact iff_of_false (Option.some_ne_none _) hone
  next := by
    intro s t _
    have htokens := take_tokens h s t
    rw [Option.map_id, id, id, id]
    unfold take Rate.draw
    simp only [htokens]
    split <;> rfl
  waits := by
    intro s t wait _ hwait
    have htokens := take_tokens h s t
    rw [Option.map_id, id, id]
    unfold take at hwait
    simp only [htokens] at hwait
    split at hwait
    · exact (nomatch hwait)
    · cases hwait
      have hpos := perMinute_pos h
      have hexact : (1 - (rate h).level s t) * 60 / perMinute * (rate h).speed =
          1 - (rate h).level s t := by
        unfold rate
        field_simp
      linarith

/-- The seconds of a time in milliseconds. -/
def seconds (t : Int) : ℚ := (t : ℚ) / 1000

/-- The hash as a bucket. -/
def RedisBucket.bucket (b : RedisBucket) : Bucket ℚ := ⟨b.tokens, seconds b.at_⟩

/-- What is dropped would have been full. -/
theorem script_tokens {state : Option RedisBucket} {now : Int}
    (hvalid : (rate h).Valid (state.map RedisBucket.bucket) (seconds now)) :
    min (perMinute : ℚ)
      (((state.filter fun b => now < b.at_ + expiry).getD ⟨perMinute, now⟩).tokens +
        ((now - ((state.filter fun b => now < b.at_ + expiry).getD ⟨perMinute, now⟩).at_ : Int) : ℚ) *
          perMinute / 60000) = (rate h).level (state.map RedisBucket.bucket) (seconds now) := by
  have hpos := perMinute_pos h
  cases state with
  | none => simp [Rate.level, rate]
  | some b =>
    obtain ⟨hnonneg, -, -⟩ := hvalid b.bucket rfl
    have hsame : (seconds now - seconds b.at_) * (perMinute / 60 : ℚ) =
        ((now - b.at_ : Int) : ℚ) * perMinute / 60000 := by
      unfold seconds
      push_cast
      ring
    have hlevel : (rate h).level ((some b).map RedisBucket.bucket) (seconds now) =
        min (perMinute : ℚ) (b.tokens + ((now - b.at_ : Int) : ℚ) * perMinute / 60000) := by
      rw [← hsame]
      rfl
    rw [hlevel]
    by_cases hkept : now < b.at_ + expiry
    · simp only [Option.filter_some, hkept, decide_true, if_true, Option.getD_some]
    · simp only [Option.filter_some, hkept, decide_false, Bool.false_eq_true, if_false,
        Option.getD_none]
      have hlong : (120000 : ℚ) ≤ ((now - b.at_ : Int) : ℚ) := by
        unfold expiry at hkept
        exact_mod_cast (by omega : (120000 : Int) ≤ now - b.at_)
      have hrefill : (perMinute : ℚ) ≤ ((now - b.at_ : Int) : ℚ) * perMinute / 60000 := by
        rw [le_div_iff₀ (by norm_num)]
        nlinarith
      have hfull : (perMinute : ℚ) ≤ b.tokens + ((now - b.at_ : Int) : ℚ) * perMinute / 60000 := by
        have hb : (0 : ℚ) ≤ b.tokens := hnonneg
        linarith
      rw [min_eq_left hfull]
      simp

theorem redisTake_follows :
    Follows (rate h) (redisTake perMinute) seconds RedisBucket.bucket where
  admits := by
    intro s t hvalid
    have htokens := script_tokens h hvalid
    unfold redisTake takeScript
    simp only [htokens]
    split
    · rename_i hone
      exact iff_of_true (if_pos le_rfl) hone
    · rename_i hone
      refine iff_of_false ?_ hone
      have hpos := perMinute_pos h
      have hwait : 0 < ⌈(1 - (rate h).level (s.map RedisBucket.bucket) (seconds t)) * 60000 /
          (perMinute : ℚ)⌉ := by
        rw [Int.ceil_pos]
        have hless := not_le.1 hone
        exact div_pos (mul_pos (by linarith) (by norm_num)) hpos
      rw [if_neg (not_le.2 hwait)]
      exact Option.some_ne_none _
  next := by
    intro s t hvalid
    have htokens := script_tokens h hvalid
    unfold redisTake takeScript Rate.draw
    simp only [htokens]
    split <;> rfl
  waits := by
    intro s t wait hvalid hwait
    have htokens := script_tokens h hvalid
    have hpos := perMinute_pos h
    unfold redisTake takeScript at hwait
    simp only [htokens] at hwait
    split at hwait
    · exact (nomatch hwait)
    · rename_i hone
      split at hwait
      · exact (nomatch hwait)
      · cases hwait
        have hceil := Int.le_ceil ((1 - (rate h).level (s.map RedisBucket.bucket) (seconds t)) *
          60000 / (perMinute : ℚ))
        have henough := mul_le_mul_of_nonneg_right hceil
          (by positivity : (0 : ℚ) ≤ perMinute / 60000)
        have hexact : (1 - (rate h).level (s.map RedisBucket.bucket) (seconds t)) * 60000 /
            perMinute * ((perMinute : ℚ) / 60000) =
              1 - (rate h).level (s.map RedisBucket.bucket) (seconds t) := by
          field_simp
        rw [hexact] at henough
        have hsame : ∀ n : ℚ, n / 1000 * (rate h).speed = n * (perMinute / 60000) := by
          intro n
          unfold rate
          ring
        rw [hsame]
        linarith

/-- **The rate limit** holds over every window, in a process and in Redis: the tokens stay between
none and `per_minute`, a window of so many seconds admits no more than `per_minute` and what is
refilled in them, and who waits as long as told is admitted. -/
theorem rate_limit_law :
    Law (rate h) (take perMinute) id (·.tokens) ∧
      Law (rate h) (redisTake perMinute) seconds (·.tokens) :=
  ⟨(take_follows h).law, (redisTake_follows h).law⟩

end

/-- Sixty calls a minute. -/
theorem sixty_a_minute :
    Law (rate (by decide : 1 ≤ 60)) (take 60) id (·.tokens) ∧
      Law (rate (by decide : 1 ≤ 60)) (redisTake 60) seconds (·.tokens) :=
  rate_limit_law (by decide)

end RateLimit

end SecondMind
