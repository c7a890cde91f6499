import Mathlib.Algebra.Order.Field.Basic
import Mathlib.Data.List.Pairwise
import Mathlib.Tactic.Linarith
import Mathlib.Tactic.Ring

/-!
# Token buckets

A bucket holds at most so many tokens and is refilled at a constant speed.  A call takes a token, or
is refused and told how long to wait.  A limiter is any function that answers calls from a state of
its own; it follows a rate if its state can be read as a bucket.

* `Rate.draw` — one call on a bucket;
* `Follows` — a limiter does to its state what a call does to the bucket;
* `Law` — the tokens stay in their bounds, no window admits more than a full bucket and what is
  refilled in it, and who waits as long as told is admitted;
* `Follows.law` — a limiter that follows a rate keeps its law.
-/

namespace Rates

variable {K : Type} [Field K] [LinearOrder K]

/-- The tokens of a bucket, and when they were counted. -/
structure Bucket (K : Type) where
  tokens : K
  at_ : K

/-- How many tokens there may be, and how many come in a unit of time. -/
structure Rate (K : Type) [Field K] [LinearOrder K] where
  cap : K
  speed : K
  one_le : 1 ≤ cap
  pos : 0 < speed

namespace Rate

variable (r : Rate K)

/-- The tokens at a moment; a bucket that is not there is full. -/
def level : Option (Bucket K) → K → K
  | none, _ => r.cap
  | some b, now => min r.cap (b.tokens + (now - b.at_) * r.speed)

/-- A call: is it admitted, and the bucket after it. -/
def draw (b : Option (Bucket K)) (now : K) : Bool × Bucket K :=
  if 1 ≤ r.level b now then (true, ⟨r.level b now - 1, now⟩) else (false, ⟨r.level b now, now⟩)

/-- The bucket holds no more and no less than it can, and was counted before. -/
def Valid (b : Option (Bucket K)) (now : K) : Prop :=
  ∀ x ∈ b, 0 ≤ x.tokens ∧ x.tokens ≤ r.cap ∧ x.at_ ≤ now

variable {r} {b : Option (Bucket K)} {now : K}

theorem valid_none : r.Valid none now := fun _ hx => (nomatch hx)

theorem Valid.later {now' : K} (h : r.Valid b now) (hle : now ≤ now') : r.Valid b now' :=
  fun x hx => ⟨(h x hx).1, (h x hx).2.1, (h x hx).2.2.trans hle⟩

theorem level_le : r.level b now ≤ r.cap := by
  cases b with
  | none => exact le_rfl
  | some x => exact min_le_left _ _

theorem draw_at : (r.draw b now).2.at_ = now := by
  unfold draw
  split <;> rfl

variable [IsStrictOrderedRing K]

theorem Valid.level_nonneg (h : r.Valid b now) : 0 ≤ r.level b now := by
  have hcap := r.one_le
  cases b with
  | none => exact zero_le_one.trans hcap
  | some x =>
    obtain ⟨htokens, -, hat⟩ := h x rfl
    have hrefill : 0 ≤ (now - x.at_) * r.speed := mul_nonneg (sub_nonneg.2 hat) r.pos.le
    exact le_min (zero_le_one.trans hcap) (by linarith)

/-- A call leaves a bucket that holds no more and no less than it can. -/
theorem Valid.draw (h : r.Valid b now) : r.Valid (some (r.draw b now).2) now := by
  intro x hx
  cases hx
  have hnonneg := h.level_nonneg
  have hle : r.level b now ≤ r.cap := level_le
  unfold Rate.draw
  split
  · rename_i hone
    exact ⟨sub_nonneg.2 hone, by linarith, le_rfl⟩
  · exact ⟨hnonneg, hle, le_rfl⟩

end Rate

/-! ## Limiters -/

section

variable {T σ : Type}

/-- What a limiter answers to calls, one after the other; none admits a call. -/
def answers (take : Option σ → T → Option K × σ) : Option σ → List T → List (T × Option K)
  | _, [] => []
  | s, t :: ts => (t, (take s t).1) :: answers take (some (take s t).2) ts

/-- The state after the calls. -/
def rest (take : Option σ → T → Option K × σ) : Option σ → List T → Option σ
  | s, [] => s
  | s, t :: ts => rest take (some (take s t).2) ts

/-- The calls come in their order. -/
def InTime (clock : T → K) (ts : List T) : Prop := ts.Pairwise fun t t' => clock t ≤ clock t'

/-- How many calls are admitted from one moment to another. -/
def admitted (clock : T → K) (calls : List (T × Option K)) (since till : K) : Nat :=
  calls.countP fun c => c.2.isNone ∧ since ≤ clock c.1 ∧ clock c.1 ≤ till

/-- **What a limiter promises.** -/
structure Law (r : Rate K) (take : Option σ → T → Option K × σ) (clock : T → K) (tokens : σ → K) :
    Prop where
  bounded : ∀ ts, InTime clock ts → ∀ s ∈ rest take none ts, 0 ≤ tokens s ∧ tokens s ≤ r.cap
  window : ∀ ts, InTime clock ts → ∀ since w, 0 ≤ w →
    (admitted clock (answers take none ts) since (since + w) : K) ≤ r.cap + w * r.speed
  waits : ∀ ts t mid t' wait, InTime clock (ts ++ t :: (mid ++ [t'])) →
    (take (rest take none ts) t).1 = some wait →
    (∀ c ∈ answers take (some (take (rest take none ts) t).2) mid, c.2 ≠ none) →
    clock t + wait ≤ clock t' → (take (rest take none (ts ++ t :: mid)) t').1 = none

/-- The state of a limiter can be read as a bucket, to which it does what a call does. -/
structure Follows (r : Rate K) (take : Option σ → T → Option K × σ) (clock : T → K)
    (view : σ → Bucket K) : Prop where
  admits : ∀ s t, r.Valid (s.map view) (clock t) →
    ((take s t).1 = none ↔ 1 ≤ r.level (s.map view) (clock t))
  next : ∀ s t, r.Valid (s.map view) (clock t) →
    view (take s t).2 = (r.draw (s.map view) (clock t)).2
  waits : ∀ s t wait, r.Valid (s.map view) (clock t) → (take s t).1 = some wait →
    1 ≤ r.level (s.map view) (clock t) + wait * r.speed

variable {r : Rate K} {take : Option σ → T → Option K × σ} {clock : T → K} {view : σ → Bucket K}
  {s : Option σ} {t : T} {ts : List T}

omit [Field K] [LinearOrder K] in
theorem rest_append (us : List T) :
    rest take s (ts ++ us) = rest take (rest take s ts) us := by
  induction ts generalizing s with
  | nil => rfl
  | cons t ts ih => exact ih

omit [Field K] [LinearOrder K] in
theorem mem_of_answers {c : T × Option K} (h : c ∈ answers take s ts) : c.1 ∈ ts := by
  induction ts generalizing s with
  | nil => exact absurd h List.not_mem_nil
  | cons t ts ih =>
    rcases List.mem_cons.1 h with rfl | h
    · exact List.mem_cons_self
    · exact List.mem_cons_of_mem _ (ih h)

omit [Field K] in
/-- Calls that come later than a window are not in it. -/
theorem admitted_eq_zero {since till : K} (h : ∀ t ∈ ts, till < clock t) :
    admitted clock (answers take s ts) since till = 0 := by
  unfold admitted
  rw [List.countP_eq_zero]
  intro c hc hin
  exact (h c.1 (mem_of_answers hc)).not_ge (of_decide_eq_true hin).2.2

omit [Field K] in
theorem admitted_cons {since till : K} :
    admitted clock (answers take s (t :: ts)) since till =
      admitted clock (answers take (some (take s t).2) ts) since till +
        if (take s t).1.isNone ∧ since ≤ clock t ∧ clock t ≤ till then 1 else 0 := by
  unfold admitted
  rw [answers, List.countP_cons]
  simp only [decide_eq_true_eq]

namespace Follows

variable [IsStrictOrderedRing K] (h : Follows r take clock view)

include h

/-- After a call the state is valid until the next one. -/
theorem valid_next {t' : T} (hvalid : r.Valid (s.map view) (clock t)) (hle : clock t ≤ clock t') :
    r.Valid ((some (take s t).2).map view) (clock t') := by
  rw [Option.map_some, h.next s t hvalid]
  exact hvalid.draw.later hle

theorem valid_rest (hvalid : ∀ t ∈ ts, r.Valid (s.map view) (clock t))
    (htime : InTime clock (ts ++ [t])) (hlast : r.Valid (s.map view) (clock t)) :
    r.Valid ((rest take s ts).map view) (clock t) := by
  induction ts generalizing s with
  | nil => exact hlast
  | cons u ts ih =>
    obtain ⟨hle, htime⟩ := List.pairwise_cons.1 htime
    have hu := hvalid u List.mem_cons_self
    refine ih (fun u' hu' => ?_) htime ?_
    · exact h.valid_next hu (hle u' (List.mem_append_left _ hu'))
    · exact h.valid_next hu (hle t (List.mem_append_right _ List.mem_cons_self))

/-- **A budget**: from a call on, no more are admitted than there are tokens and tokens to come. -/
theorem admitted_le_level (since : K) {till : K} (hvalid : r.Valid (s.map view) (clock t))
    (htime : InTime clock (t :: ts)) (hto : clock t ≤ till) :
    (admitted clock (answers take s (t :: ts)) since till : K) ≤
      r.level (s.map view) (clock t) + (till - clock t) * r.speed := by
  induction ts generalizing s t with
  | nil =>
    have hlevel := hvalid.level_nonneg
    have hcome : 0 ≤ (till - clock t) * r.speed := mul_nonneg (sub_nonneg.2 hto) r.pos.le
    rw [admitted_cons]
    split
    · rename_i hin
      have hone := (h.admits s t hvalid).1 (Option.isNone_iff_eq_none.1 hin.1)
      have hzero : admitted clock (answers take (some (take s t).2) []) since till = 0 := rfl
      rw [hzero]
      push_cast
      linarith
    · have hzero : admitted clock (answers take (some (take s t).2) []) since till = 0 := rfl
      rw [hzero]
      push_cast
      linarith
  | cons u ts ih =>
    obtain ⟨hle, htime'⟩ := List.pairwise_cons.1 htime
    have hlevel := hvalid.level_nonneg
    have hu := hle u List.mem_cons_self
    have hnext := h.valid_next hvalid hu
    -- what is left after the call, and what comes until the end of the window
    have hleft : (admitted clock (answers take (some (take s t).2) (u :: ts)) since till : K) ≤
        (r.draw (s.map view) (clock t)).2.tokens + (till - clock t) * r.speed := by
      by_cases hin : clock u ≤ till
      · have hbudget := ih hnext htime' hin
        rw [Option.map_some, h.next s t hvalid] at hbudget
        have hrefill : r.level (some (r.draw (s.map view) (clock t)).2) (clock u) ≤
            (r.draw (s.map view) (clock t)).2.tokens + (clock u - clock t) * r.speed := by
          have hmin := min_le_right r.cap ((r.draw (s.map view) (clock t)).2.tokens +
            (clock u - (r.draw (s.map view) (clock t)).2.at_) * r.speed)
          rw [Rate.draw_at] at hmin
          rw [Rate.level, Rate.draw_at]
          exact hmin
        have hsplit : (till - clock t) * r.speed =
            (clock u - clock t) * r.speed + (till - clock u) * r.speed := by ring
        linarith
      · have hlate : ∀ x ∈ u :: ts, till < clock x := by
          intro x hx
          rcases List.mem_cons.1 hx with rfl | hx
          · exact not_le.1 hin
          · exact (not_le.1 hin).trans_le ((List.pairwise_cons.1 htime').1 x hx)
        rw [admitted_eq_zero hlate]
        have htokens := (hvalid.draw _ rfl).1
        have hcome : 0 ≤ (till - clock t) * r.speed := mul_nonneg (sub_nonneg.2 hto) r.pos.le
        push_cast
        linarith
    rw [admitted_cons]
    push_cast
    unfold Rate.draw at hleft
    split
    · rename_i hin
      have hone := (h.admits s t hvalid).1 (Option.isNone_iff_eq_none.1 hin.1)
      rw [if_pos hone] at hleft
      linarith
    · split at hleft
      · linarith
      · linarith

theorem admitted_le {since w : K} (hw : 0 ≤ w) (hvalid : ∀ t ∈ ts, r.Valid (s.map view) (clock t))
    (htime : InTime clock ts) :
    (admitted clock (answers take s ts) since (since + w) : K) ≤ r.cap + w * r.speed := by
  have hcap := r.one_le
  have hroom : 0 ≤ w * r.speed := mul_nonneg hw r.pos.le
  induction ts generalizing s with
  | nil =>
    have hzero : admitted clock (answers take s []) since (since + w) = 0 := rfl
    rw [hzero]
    push_cast
    linarith
  | cons t ts ih =>
    obtain ⟨hle, htime'⟩ := List.pairwise_cons.1 htime
    have ht := hvalid t List.mem_cons_self
    by_cases hbefore : clock t < since
    · rw [admitted_cons, if_neg fun hin => hbefore.not_ge hin.2.1, Nat.add_zero]
      exact ih (fun u hu => h.valid_next ht (hle u hu)) htime'
    · by_cases hto : clock t ≤ since + w
      · have hbudget := h.admitted_le_level since ht htime hto
        have hlevel : r.level (s.map view) (clock t) ≤ r.cap := Rate.level_le
        have hcome : (since + w - clock t) * r.speed ≤ w * r.speed :=
          mul_le_mul_of_nonneg_right (by linarith [not_lt.1 hbefore]) r.pos.le
        linarith
      · have hlate : ∀ x ∈ t :: ts, since + w < clock x := by
          intro x hx
          rcases List.mem_cons.1 hx with rfl | hx
          · exact not_le.1 hto
          · exact (not_le.1 hto).trans_le (hle x hx)
        rw [admitted_eq_zero hlate]
        push_cast
        linarith

/-- While calls are refused, the tokens come as they would without them. -/
theorem level_rest {mid : List T} {t' : T} (hvalid : r.Valid (s.map view) (clock t))
    (htime : InTime clock (t :: (mid ++ [t']))) (hfirst : (take s t).1 ≠ none)
    (hrefused : ∀ c ∈ answers take (some (take s t).2) mid, c.2 ≠ none) :
    r.level ((rest take s (t :: mid)).map view) (clock t') =
      min r.cap (r.level (s.map view) (clock t) + (clock t' - clock t) * r.speed) := by
  have hdraw : r.draw (s.map view) (clock t) = (false, ⟨r.level (s.map view) (clock t), clock t⟩) :=
    if_neg fun hone => hfirst ((h.admits s t hvalid).2 hone)
  have hstate : view (take s t).2 = ⟨r.level (s.map view) (clock t), clock t⟩ := by
    rw [h.next s t hvalid, hdraw]
  induction mid generalizing s t with
  | nil => rw [rest, rest, Option.map_some, hstate, Rate.level]
  | cons u mid ih =>
    obtain ⟨hle, htime'⟩ := List.pairwise_cons.1 htime
    have hnext := h.valid_next hvalid (hle u List.mem_cons_self)
    obtain ⟨hu, hlater⟩ := List.forall_mem_cons.1 hrefused
    have hdraw' : r.draw ((some (take s t).2).map view) (clock u) =
        (false, ⟨r.level ((some (take s t).2).map view) (clock u), clock u⟩) :=
      if_neg fun hone => hu ((h.admits _ u hnext).2 hone)
    have hstate' : view (take (some (take s t).2) u).2 =
        ⟨r.level ((some (take s t).2).map view) (clock u), clock u⟩ := by
      rw [h.next _ u hnext, hdraw']
    have hlast := ih hnext htime' hu hlater hdraw' hstate'
    -- a refused call found less than a token, so that nothing was cut off
    have hlow : r.level ((some (take s t).2).map view) (clock u) < 1 := by
      by_contra hone
      exact hu ((h.admits _ u hnext).2 (not_lt.1 hone))
    have huncut : r.level ((some (take s t).2).map view) (clock u) =
        r.level (s.map view) (clock t) + (clock u - clock t) * r.speed := by
      rw [Option.map_some, hstate, Rate.level] at hlow ⊢
      have hcap := r.one_le
      exact min_eq_right ((min_lt_iff.1 (hlow.trans_le hcap)).resolve_left (lt_irrefl _)).le
    have hsum : r.level (s.map view) (clock t) + (clock u - clock t) * r.speed +
        (clock t' - clock u) * r.speed =
          r.level (s.map view) (clock t) + (clock t' - clock t) * r.speed := by ring
    rw [huncut, hsum] at hlast
    exact hlast

/-- **A limiter that follows a rate keeps its law.** -/
theorem law : Law r take clock fun s => (view s).tokens where
  bounded := by
    intro ts htime s hs
    rcases List.eq_nil_or_concat ts with rfl | ⟨init, t, rfl⟩
    · exact (nomatch hs)
    · rw [List.concat_eq_append] at hs htime
      have hvalid := h.valid_rest (s := none) (fun _ _ => Rate.valid_none) htime Rate.valid_none
      rw [rest_append] at hs
      cases hs
      have hview : view (take (rest take none init) t).2 =
          (r.draw ((rest take none init).map view) (clock t)).2 := h.next _ t hvalid
      have hdrawn := hvalid.draw _ rfl
      rw [← hview] at hdrawn
      exact ⟨hdrawn.1, hdrawn.2.1⟩
  window := by
    intro ts htime since w hw
    exact h.admitted_le hw (fun _ _ => Rate.valid_none) htime
  waits := by
    intro ts t mid t' wait htime hwait hrefused hlong
    obtain ⟨hbefore, hafter, hcross⟩ := List.pairwise_append.1 htime
    have hvalid := h.valid_rest (s := none) (t := t) (fun _ _ => Rate.valid_none)
      (List.pairwise_append.2 ⟨hbefore, List.pairwise_singleton _ _, fun x hx y hy =>
        hcross x hx y (List.mem_singleton.1 hy ▸ List.mem_cons_self)⟩) Rate.valid_none
    have hlevel := h.level_rest hvalid hafter (by rw [hwait]; exact Option.some_ne_none _) hrefused
    have hlast : r.Valid ((rest take none (ts ++ t :: mid)).map view) (clock t') :=
      h.valid_rest (s := none) (fun _ _ => Rate.valid_none)
        (by rwa [List.append_assoc, List.cons_append]) Rate.valid_none
    rw [rest_append] at hlast ⊢
    rw [h.admits _ t' hlast, hlevel]
    have henough := h.waits _ t wait hvalid hwait
    have hmore : wait * r.speed ≤ (clock t' - clock t) * r.speed :=
      mul_le_mul_of_nonneg_right (by linarith) r.pos.le
    exact le_min r.one_le (by linarith)

end Follows

end

end Rates
