import Mathlib
import SecondMind.Calendar.Gregorian
import SecondMind.Core.Zone

/-!
# Spend counters and the usage ledger

`metering/gate.py` and the spend store of `metering/adapters/inmemory.py`.  A priced call is counted
in the store, and later written to the ledger; a reconciliation reads the ledger's totals one after
the other, and then sets the counters to them.  Amounts are whole numbers of the smallest unit of
`usd`, and instants are counted as dates are, a date beginning at its number times a day.

* `SpendGate.appBlock` — what stops new turns, by the counters;
* `Metering.step` — one step of a call, of a reconciliation, or of the clock;
* `counters_cover_ledger` — the counters cover the ledger in every state of a run in which no call is
  between its count and its row while a reconciliation reads and resets;
* `counters_cover_ledger` — and so the gate admits nothing that the ledger would refuse.
-/

namespace SecondMind

open Gregorian

/-! ## Moments -/

/-- A `datetime` in UTC. -/
structure Moment where
  time : Int
  first : day ≤ time
  last : time < (lastOrdinal + 1) * day
  deriving DecidableEq

namespace Moment

variable (at_ : Moment)

/-- `utc_day`. -/
def utcDay : Date where
  ordinal := at_.time / day
  first := by
    have hfirst := at_.first
    unfold day hour second at hfirst ⊢
    omega
  last := by
    have hlast := at_.last
    unfold lastOrdinal day hour second at hlast ⊢
    omega

/-- `utc_month`. -/
def utcMonth : Int × Int := (at_.utcDay.year, at_.utcDay.month)

/-- `day_start`. -/
def dayStart : Int := at_.utcDay.ordinal * day

/-- `month_start`. -/
def monthStart : Int := at_.utcDay.monthFirst.ordinal * day

theorem dayStart_le : at_.dayStart ≤ at_.time := by
  show at_.time / day * day ≤ at_.time
  exact Int.ediv_mul_le _ (by decide)

variable {at_} {other : Moment}

theorem dayStart_le_of_day (h : other.utcDay = at_.utcDay) : at_.dayStart ≤ other.time := by
  rw [dayStart, ← h]
  exact other.dayStart_le

theorem monthStart_le_of_month (h : other.utcMonth = at_.utcMonth) : at_.monthStart ≤ other.time := by
  obtain ⟨hyear, hmonth⟩ := Prod.mk.inj h
  have hfirst : at_.utcDay.monthFirst.ordinal = other.utcDay.monthFirst.ordinal := by
    have hname := at_.utcDay.ordinal_eq
    have hname' := other.utcDay.ordinal_eq
    rw [hyear, hmonth] at hname'
    show at_.utcDay.ordinal - at_.utcDay.day + 1 = other.utcDay.ordinal - other.utcDay.day + 1
    omega
  have hday := other.utcDay.month_day_spec.2.1.1
  have hle : other.utcDay.monthFirst.ordinal ≤ other.utcDay.ordinal := by
    show other.utcDay.ordinal - other.utcDay.day + 1 ≤ _
    omega
  rw [monthStart, hfirst]
  refine Int.le_trans (Int.mul_le_mul_of_nonneg_right hle (by decide)) other.dayStart_le

end Moment

/-! ## The ledger and the store -/

/-- A `LedgerEntry`, with the time of its row. -/
structure LedgerEntry where
  provider : String
  costUsd : Nat
  createdAt : Moment
  deriving DecidableEq

/-- A call that was counted. -/
structure CountedCall where
  provider : String
  costUsd : Nat
  countedAt : Moment
  deriving DecidableEq

/-- What the entries that satisfy a condition cost. -/
def ledgerCost (ledger : List LedgerEntry) (p : LedgerEntry → Bool) : Nat :=
  ((ledger.filter p).map (·.costUsd)).sum

/-- What the counted calls that satisfy a condition cost. -/
def pendingCost (pending : List CountedCall) (p : CountedCall → Bool) : Nat :=
  ((pending.filter p).map (·.costUsd)).sum

/-- `SpendTotals`; a provider that is not in the mapping has spent nothing. -/
structure SpendTotals where
  day : Nat := 0
  month : Nat := 0
  providers : String → Nat := fun _ => 0

/-- The counters of `InMemorySpendStore`. -/
structure SpendStore where
  day : Date → Nat := fun _ => 0
  month : Int × Int → Nat := fun _ => 0
  providers : String → Nat := fun _ => 0

namespace SpendStore

variable (store : SpendStore)

def add (provider : String) (cost : Nat) (at_ : Moment) : SpendStore where
  day := Function.update store.day at_.utcDay (store.day at_.utcDay + cost)
  month := Function.update store.month at_.utcMonth (store.month at_.utcMonth + cost)
  providers := Function.update store.providers provider (store.providers provider + cost)

def totals (at_ : Moment) : SpendTotals where
  day := store.day at_.utcDay
  month := store.month at_.utcMonth
  providers := store.providers

def reset (totals : SpendTotals) (at_ : Moment) : SpendStore where
  day := Function.update store.day at_.utcDay totals.day
  month := Function.update store.month at_.utcMonth totals.month
  providers := totals.providers

end SpendStore

/-! ## The gate -/

/-- `BlockReason`, as far as `app_block` gives one from what it has read. -/
inductive BlockReason
  | killSwitch | dailyCap | monthlyCap | providerCredit
  deriving DecidableEq, Repr

structure Block where
  reason : BlockReason
  limit : Option Nat := none
  value : Option Nat := none
  deriving DecidableEq

structure SpendLimits where
  dailyUsd : Nat
  monthlyUsd : Nat
  creditsUsd : List (String × Nat) := []
  creditSince : Option Date := none
  providers : List String := []

namespace SpendLimits

variable (limits : SpendLimits)

/-- `credit_start`; 1 January 2000 if no date is set. -/
def creditStart : Int := (limits.creditSince.elim 730120 (·.ordinal)) * day

/-- The providers that are called, or that have a credit. -/
def called : List String :=
  if limits.providers = [] then limits.creditsUsd.map (·.1) else limits.providers

/-- `_credit_used_up`, with what the store says of the provider. -/
def creditUsedUp (creditOut : String → Bool) (totals : SpendTotals) (provider : String) : Bool :=
  creditOut provider || (limits.creditsUsd.lookup provider).any (· ≤ totals.providers provider)

/-- `app_block`, with the flag, the marks and the totals that it reads. -/
def appBlock (killSwitchOn : Bool) (creditOut : String → Bool) (totals : SpendTotals) :
    Option Block :=
  let out := limits.called.filter (limits.creditUsedUp creditOut totals)
  if killSwitchOn then some { reason := .killSwitch }
  else if limits.dailyUsd ≤ totals.day then
    some { reason := .dailyCap, limit := some limits.dailyUsd, value := some totals.day }
  else if limits.monthlyUsd ≤ totals.month then
    some { reason := .monthlyCap, limit := some limits.monthlyUsd, value := some totals.month }
  else if limits.called ≠ [] ∧ out.length = limits.called.length then
    some {
      reason := .providerCredit
      limit := if limits.creditsUsd = [] then none else some (limits.creditsUsd.map (·.2)).sum
      value := some (out.map totals.providers).sum }
  else none

end SpendLimits

/-- One has spent no more than the other. -/
structure SpendTotals.Le (t t' : SpendTotals) : Prop where
  day : t.day ≤ t'.day
  month : t.month ≤ t'.month
  providers : ∀ provider, t.providers provider ≤ t'.providers provider

theorem SpendLimits.creditUsedUp_mono {limits : SpendLimits} {creditOut : String → Bool}
    {t t' : SpendTotals} (h : t.Le t') {provider : String}
    (hused : limits.creditUsedUp creditOut t provider = true) :
    limits.creditUsedUp creditOut t' provider = true := by
  rcases Bool.or_eq_true_iff.1 hused with hout | hspent
  · exact Bool.or_eq_true_iff.2 (.inl hout)
  · refine Bool.or_eq_true_iff.2 (.inr ?_)
    cases hcredit : limits.creditsUsd.lookup provider with
    | none =>
      rw [hcredit] at hspent
      exact absurd hspent Bool.false_ne_true
    | some credit =>
      rw [hcredit] at hspent
      have hle : credit ≤ t.providers provider := of_decide_eq_true hspent
      exact decide_eq_true (Nat.le_trans hle (h.providers provider))

/-- What is stopped stays stopped when more has been spent. -/
theorem SpendLimits.appBlock_mono {limits : SpendLimits} {killSwitchOn : Bool}
    {creditOut : String → Bool} {t t' : SpendTotals} (h : t.Le t')
    (hblock : limits.appBlock killSwitchOn creditOut t ≠ none) :
    limits.appBlock killSwitchOn creditOut t' ≠ none := by
  intro hnone
  unfold appBlock at hblock hnone
  dsimp only at hblock hnone
  split at hnone
  · cases hnone
  rename_i hkill
  split at hnone
  · cases hnone
  rename_i hday
  split at hnone
  · cases hnone
  rename_i hmonth
  split at hnone
  · cases hnone
  rename_i hcredit
  have hday' : ¬ limits.dailyUsd ≤ t.day := fun hle => hday (Nat.le_trans hle h.day)
  have hmonth' : ¬ limits.monthlyUsd ≤ t.month := fun hle => hmonth (Nat.le_trans hle h.month)
  rw [if_neg hkill, if_neg hday', if_neg hmonth'] at hblock
  refine hblock (if_neg ?_)
  rintro ⟨hne, hall⟩
  refine hcredit ⟨hne, ?_⟩
  have hused := List.filter_eq_self.1 (List.filter_sublist.eq_of_length hall)
  rw [List.filter_eq_self.2 fun provider hp => creditUsedUp_mono h (hused provider hp)]

/-! ## Calls and reconciliations -/

/-- What a reconciliation has read. -/
inductive ReadStage
  | started
  | dayRead (day : Nat)
  | monthRead (day month : Nat)
  | allRead (totals : SpendTotals)

/-- Nothing has been read yet. -/
def ReadStage.isStarted : ReadStage → Bool
  | started => true
  | _ => false

/-- A `reconcile` on its way, with the time that it took at its start. -/
structure Reconciliation where
  at_ : Moment
  reading : ReadStage := .started

/-- The clock, the store, the ledger, the calls that are counted and not yet in it, and the
reconciliations on their way. -/
structure Metering where
  now : Moment
  store : SpendStore := {}
  ledger : List LedgerEntry := []
  pending : List CountedCall := []
  jobs : List Reconciliation := []

/-- What happens next. -/
inductive MeterAct
  | clock (now : Moment)
  /-- `spent`, after a call. -/
  | count (provider : String) (cost : Nat)
  /-- The row of a call that was counted. -/
  | record (i : Nat)
  | reconcile
  /-- The next read of a reconciliation, or its reset. -/
  | advance (i : Nat)

namespace Metering

variable (limits : SpendLimits) (m : Metering)

/-- `reader.since(moment)`, summed. -/
def since (moment : Int) (p : LedgerEntry → Bool := fun _ => true) : Nat :=
  ledgerCost m.ledger fun e => decide (moment ≤ e.createdAt.time) && p e

def count (provider : String) (cost : Nat) : Metering :=
  { m with
    store := m.store.add provider cost m.now
    pending := ⟨provider, cost, m.now⟩ :: m.pending }

def record (i : Nat) (call : CountedCall) : Metering :=
  { m with
    ledger := ⟨call.provider, call.costUsd, m.now⟩ :: m.ledger
    pending := m.pending.eraseIdx i }

/-- One `await` of `reconcile`. -/
def advance (i : Nat) (job : Reconciliation) : Metering :=
  match job.reading with
  | .started =>
    { m with jobs := m.jobs.set i { job with reading := .dayRead (m.since job.at_.dayStart) } }
  | .dayRead d =>
    { m with
      jobs := m.jobs.set i { job with reading := .monthRead d (m.since job.at_.monthStart) } }
  | .monthRead d month =>
    let providers := fun provider => m.since limits.creditStart (·.provider = provider)
    { m with jobs := m.jobs.set i { job with reading := .allRead ⟨d, month, providers⟩ } }
  | .allRead totals =>
    { m with store := m.store.reset totals job.at_, jobs := m.jobs.eraseIdx i }

/-- **One step.** -/
def step : MeterAct → Metering
  | .clock now => { m with now := now }
  | .count provider cost => m.count provider cost
  | .record i =>
    match m.pending[i]? with
    | some call => m.record i call
    | none => m
  | .reconcile => { m with jobs := ⟨m.now, .started⟩ :: m.jobs }
  | .advance i =>
    match m.jobs[i]? with
    | some job => m.advance limits i job
    | none => m

def run (acts : List MeterAct) : Metering := acts.foldl (step limits) m

/-- No call is counted while a reconciliation has read and not reset, none starts to read while a
call is counted and not in the ledger, and a call is in the ledger on the day it was counted. -/
def Orderly : MeterAct → Prop
  | .count _ _ => m.jobs.all (·.reading.isStarted) = true
  | .record i => (m.pending[i]?).all (·.countedAt.utcDay = m.now.utcDay) = true
  | .advance i => (m.jobs[i]?).any (·.reading.isStarted) = true → m.pending = []
  | _ => True

instance (act : MeterAct) : Decidable (m.Orderly act) :=
  match act with
  | .count _ _ => inferInstanceAs (Decidable (_ = _))
  | .record _ => inferInstanceAs (Decidable (_ = _))
  | .advance _ => inferInstanceAs (Decidable (_ → _))
  | .clock _ => isTrue trivial
  | .reconcile => isTrue trivial

/-- So it is in every step of a run. -/
def OrderlyRun : Metering → List MeterAct → Prop
  | _, [] => True
  | m, act :: acts => m.Orderly act ∧ OrderlyRun (m.step limits act) acts

instance decidableOrderlyRun (m : Metering) : (acts : List MeterAct) →
    Decidable (OrderlyRun limits m acts)
  | [] => isTrue trivial
  | act :: acts =>
    have := decidableOrderlyRun (m.step limits act) acts
    inferInstanceAs (Decidable (_ ∧ _))

/-! ## The counters cover the ledger -/

/-- What has been counted, in the ledger or not, is in the counters. -/
structure Covered : Prop where
  day : ∀ d, ledgerCost m.ledger (·.createdAt.utcDay = d) +
    pendingCost m.pending (·.countedAt.utcDay = d) ≤ m.store.day d
  month : ∀ k, ledgerCost m.ledger (·.createdAt.utcMonth = k) +
    pendingCost m.pending (·.countedAt.utcMonth = k) ≤ m.store.month k
  providers : ∀ provider, m.since limits.creditStart (·.provider = provider) +
    pendingCost m.pending (·.provider = provider) ≤ m.store.providers provider

/-- What a reconciliation has read is what the ledger still says. -/
def UpToDate (job : Reconciliation) : Prop :=
  match job.reading with
  | .started => True
  | .dayRead d => d = m.since job.at_.dayStart
  | .monthRead d month => d = m.since job.at_.dayStart ∧ month = m.since job.at_.monthStart
  | .allRead totals => totals.day = m.since job.at_.dayStart ∧
      totals.month = m.since job.at_.monthStart ∧
      ∀ provider, totals.providers provider = m.since limits.creditStart (·.provider = provider)

/-- The counters cover the ledger, and every reconciliation that reads is up to date. -/
structure Inv : Prop where
  covered : m.Covered limits
  upToDate : ∀ job ∈ m.jobs, m.UpToDate limits job
  quiet : m.pending ≠ [] → ∀ job ∈ m.jobs, job.reading.isStarted = true

end Metering

/-! ## Costs -/

section

variable {ledger : List LedgerEntry} {pending : List CountedCall}

@[simp] theorem ledgerCost_nil (p : LedgerEntry → Bool) : ledgerCost [] p = 0 := rfl

@[simp] theorem pendingCost_nil (p : CountedCall → Bool) : pendingCost [] p = 0 := rfl

theorem ledgerCost_cons (e : LedgerEntry) (p : LedgerEntry → Bool) :
    ledgerCost (e :: ledger) p = (if p e then e.costUsd else 0) + ledgerCost ledger p := by
  unfold ledgerCost
  by_cases hp : p e = true
  · rw [List.filter_cons_of_pos hp, if_pos hp, List.map_cons, List.sum_cons]
  · rw [List.filter_cons_of_neg hp, if_neg hp, Nat.zero_add]

theorem pendingCost_cons (c : CountedCall) (p : CountedCall → Bool) :
    pendingCost (c :: pending) p = (if p c then c.costUsd else 0) + pendingCost pending p := by
  unfold pendingCost
  by_cases hp : p c = true
  · rw [List.filter_cons_of_pos hp, if_pos hp, List.map_cons, List.sum_cons]
  · rw [List.filter_cons_of_neg hp, if_neg hp, Nat.zero_add]

theorem pendingCost_eraseIdx {i : Nat} {c : CountedCall} (h : pending[i]? = some c)
    (p : CountedCall → Bool) :
    pendingCost pending p = (if p c then c.costUsd else 0) + pendingCost (pending.eraseIdx i) p := by
  induction pending generalizing i with
  | nil => exact nomatch h
  | cons c' pending ih =>
    cases i with
    | zero =>
      cases h
      rw [List.eraseIdx_cons_zero, pendingCost_cons]
    | succ i =>
      rw [List.eraseIdx_cons_succ, pendingCost_cons, pendingCost_cons,
        ih (List.getElem?_cons_succ.symm.trans h)]
      omega

/-- A wider condition costs no less. -/
theorem ledgerCost_mono {p q : LedgerEntry → Bool} (h : ∀ e ∈ ledger, p e = true → q e = true) :
    ledgerCost ledger p ≤ ledgerCost ledger q := by
  induction ledger with
  | nil => exact Nat.le_refl 0
  | cons e ledger ih =>
    have hrest := ih fun e' he' => h e' (List.mem_cons_of_mem _ he')
    have hhead := h e List.mem_cons_self
    rw [ledgerCost_cons, ledgerCost_cons]
    by_cases hp : p e = true
    · rw [if_pos hp, if_pos (hhead hp)]
      omega
    · rw [if_neg hp]
      omega

end

namespace Metering

variable {limits : SpendLimits} {m : Metering}

theorem since_cons (e : LedgerEntry) (moment : Int) (p : LedgerEntry → Bool) :
    { m with ledger := e :: m.ledger }.since moment p =
      (if decide (moment ≤ e.createdAt.time) && p e then e.costUsd else 0) + m.since moment p :=
  ledgerCost_cons e _

/-! ## The steps -/

theorem covered_count (h : m.Covered limits) (provider : String) (cost : Nat) :
    (m.count provider cost).Covered limits where
  day d := by
    have hd := h.day d
    show ledgerCost m.ledger _ + pendingCost (_ :: m.pending) _ ≤
      Function.update m.store.day m.now.utcDay _ d
    rw [pendingCost_cons]
    by_cases heq : d = m.now.utcDay
    · subst heq
      rw [Function.update_self]
      simp only [decide_true, if_true]
      omega
    · rw [Function.update_of_ne heq]
      simp only [Ne.symm heq, decide_false, if_false, Bool.false_eq_true]
      omega
  month k := by
    have hk := h.month k
    show ledgerCost m.ledger _ + pendingCost (_ :: m.pending) _ ≤
      Function.update m.store.month m.now.utcMonth _ k
    rw [pendingCost_cons]
    by_cases heq : k = m.now.utcMonth
    · subst heq
      rw [Function.update_self]
      simp only [decide_true, if_true]
      omega
    · rw [Function.update_of_ne heq]
      simp only [Ne.symm heq, decide_false, if_false, Bool.false_eq_true]
      omega
  providers q := by
    have hq := h.providers q
    show m.since _ _ + pendingCost (_ :: m.pending) _ ≤
      Function.update m.store.providers provider _ q
    rw [pendingCost_cons]
    by_cases heq : q = provider
    · subst heq
      rw [Function.update_self]
      simp only [decide_true, if_true]
      omega
    · rw [Function.update_of_ne heq]
      simp only [Ne.symm heq, decide_false, if_false, Bool.false_eq_true]
      omega

theorem covered_record (h : m.Covered limits) {i : Nat} {call : CountedCall}
    (hcall : m.pending[i]? = some call) (hday : call.countedAt.utcDay = m.now.utcDay) :
    (m.record i call).Covered limits := by
  have hmonth : call.countedAt.utcMonth = m.now.utcMonth := by
    rw [Moment.utcMonth, Moment.utcMonth, hday]
  constructor
  · intro d
    have hd := h.day d
    rw [pendingCost_eraseIdx hcall, hday] at hd
    show ledgerCost (_ :: m.ledger) _ + pendingCost (m.pending.eraseIdx i) _ ≤ m.store.day d
    rw [ledgerCost_cons]
    exact Nat.le_trans (Nat.le_of_eq (by dsimp only; omega)) hd
  · intro k
    have hk := h.month k
    rw [pendingCost_eraseIdx hcall, hmonth] at hk
    show ledgerCost (_ :: m.ledger) _ + pendingCost (m.pending.eraseIdx i) _ ≤ m.store.month k
    rw [ledgerCost_cons]
    exact Nat.le_trans (Nat.le_of_eq (by dsimp only; omega)) hk
  · intro q
    have hq := h.providers q
    rw [pendingCost_eraseIdx hcall] at hq
    have hcons := since_cons (m := m) ⟨call.provider, call.costUsd, m.now⟩ limits.creditStart
      (·.provider = q)
    show { m with ledger := _ :: m.ledger }.since _ _ + pendingCost (m.pending.eraseIdx i) _ ≤
      m.store.providers q
    rw [hcons]
    dsimp only at hq ⊢
    by_cases hprovider : call.provider = q
    · simp only [hprovider, decide_true, Bool.and_true, if_true] at hq ⊢
      split <;> omega
    · simp only [hprovider, decide_false, Bool.and_false, if_false, Bool.false_eq_true] at hq ⊢
      omega

theorem covered_reset (h : m.Covered limits) (hpending : m.pending = []) {at_ : Moment}
    {totals : SpendTotals} (hday : totals.day = m.since at_.dayStart)
    (hmonth : totals.month = m.since at_.monthStart)
    (hproviders : ∀ provider, totals.providers provider =
      m.since limits.creditStart (·.provider = provider)) (jobs : List Reconciliation) :
    { m with store := m.store.reset totals at_, jobs := jobs }.Covered limits where
  day d := by
    have hd := h.day d
    show ledgerCost m.ledger _ + pendingCost m.pending _ ≤
      Function.update m.store.day at_.utcDay totals.day d
    by_cases heq : d = at_.utcDay
    · subst heq
      rw [Function.update_self, hpending, pendingCost_nil, Nat.add_zero, hday]
      refine ledgerCost_mono fun e _ he => ?_
      simpa using Moment.dayStart_le_of_day (of_decide_eq_true he)
    · rw [Function.update_of_ne heq]
      exact hd
  month k := by
    have hk := h.month k
    show ledgerCost m.ledger _ + pendingCost m.pending _ ≤
      Function.update m.store.month at_.utcMonth totals.month k
    by_cases heq : k = at_.utcMonth
    · subst heq
      rw [Function.update_self, hpending, pendingCost_nil, Nat.add_zero, hmonth]
      refine ledgerCost_mono fun e _ he => ?_
      simpa using Moment.monthStart_le_of_month (of_decide_eq_true he)
    · rw [Function.update_of_ne heq]
      exact hk
  providers q := by
    show m.since _ _ + pendingCost m.pending _ ≤ totals.providers q
    rw [hpending, pendingCost_nil, hproviders q]
    exact Nat.le_refl _

/-- A reconciliation that has nothing read yet is up to date. -/
theorem upToDate_of_started {job : Reconciliation} (h : job.reading.isStarted = true) :
    m.UpToDate limits job := by
  unfold UpToDate
  cases hreading : job.reading with
  | started => trivial
  | dayRead d | monthRead d month | allRead totals =>
    rw [hreading] at h
    exact absurd h Bool.false_ne_true

/-- One job goes on while the ledger stays as it is. -/
theorem Inv.set_job (h : m.Inv limits) (hpending : m.pending = []) {job : Reconciliation}
    (hjob : m.UpToDate limits job) (i : Nat) : { m with jobs := m.jobs.set i job }.Inv limits where
  covered := ⟨h.covered.day, h.covered.month, h.covered.providers⟩
  upToDate job' hmem := by
    rcases List.mem_or_eq_of_mem_set hmem with hmem | rfl
    · exact h.upToDate job' hmem
    · exact hjob
  quiet hne := absurd hpending hne

theorem Inv.advance (h : m.Inv limits) {i : Nat} {job : Reconciliation}
    (hjob : m.jobs[i]? = some job)
    (horderly : job.reading.isStarted = true → m.pending = []) :
    (m.advance limits i job).Inv limits := by
  have hmem : job ∈ m.jobs := List.mem_of_getElem? hjob
  have hpending : m.pending = [] := by
    by_contra hne
    exact hne (horderly (h.quiet hne job hmem))
  have hdate := h.upToDate job hmem
  unfold UpToDate at hdate
  unfold Metering.advance
  cases hreading : job.reading with
  | started =>
    refine h.set_job hpending ?_ i
    show m.since job.at_.dayStart = m.since job.at_.dayStart
    rfl
  | dayRead d =>
    rw [hreading] at hdate
    refine h.set_job hpending ?_ i
    show d = m.since job.at_.dayStart ∧ m.since job.at_.monthStart = m.since job.at_.monthStart
    exact ⟨hdate, rfl⟩
  | monthRead d month =>
    rw [hreading] at hdate
    refine h.set_job hpending ?_ i
    show d = m.since job.at_.dayStart ∧ month = m.since job.at_.monthStart ∧ _
    exact ⟨hdate.1, hdate.2, fun _ => rfl⟩
  | allRead totals =>
    rw [hreading] at hdate
    obtain ⟨hday, hmonth, hproviders⟩ := hdate
    exact ⟨covered_reset h.covered hpending hday hmonth hproviders _,
      fun job' hjob' => h.upToDate job' (List.mem_of_mem_eraseIdx hjob'),
      fun hne => absurd hpending hne⟩

/-- One step keeps the ledger covered. -/
theorem Inv.step (h : m.Inv limits) {act : MeterAct} (horderly : m.Orderly act) :
    (m.step limits act).Inv limits := by
  cases act with
  | clock now => exact ⟨⟨h.covered.day, h.covered.month, h.covered.providers⟩, h.upToDate, h.quiet⟩
  | count provider cost =>
    have hstarted := List.all_eq_true.1 horderly
    exact ⟨covered_count h.covered provider cost,
      fun job hjob => upToDate_of_started (hstarted job hjob), fun _ => hstarted⟩
  | record i =>
    show Inv limits (match m.pending[i]? with | some call => m.record i call | none => m)
    cases hcall : m.pending[i]? with
    | none => exact h
    | some call =>
      have hday : call.countedAt.utcDay = m.now.utcDay := by
        have hsame : (m.pending[i]?).all (·.countedAt.utcDay = m.now.utcDay) = true := horderly
        rw [hcall] at hsame
        exact of_decide_eq_true hsame
      have hstarted := h.quiet (List.ne_nil_of_mem (List.mem_of_getElem? hcall))
      exact ⟨covered_record h.covered hcall hday,
        fun job hjob => upToDate_of_started (hstarted job hjob), fun _ => hstarted⟩
  | reconcile =>
    refine ⟨⟨h.covered.day, h.covered.month, h.covered.providers⟩, fun job hjob => ?_,
      fun hne job hjob => ?_⟩
    · rcases List.mem_cons.1 hjob with rfl | hjob
      · exact upToDate_of_started rfl
      · exact h.upToDate job hjob
    · rcases List.mem_cons.1 hjob with rfl | hjob
      · rfl
      · exact h.quiet hne job hjob
  | advance i =>
    show Inv limits (match m.jobs[i]? with | some job => m.advance limits i job | none => m)
    cases hjob : m.jobs[i]? with
    | none => exact h
    | some job =>
      refine h.advance hjob fun hstarted => ?_
      have hread : (m.jobs[i]?).any (·.reading.isStarted) = true → m.pending = [] := horderly
      rw [hjob] at hread
      exact hread hstarted

/-- **Every orderly run** keeps the ledger covered. -/
theorem run_inv {acts : List MeterAct} (h : m.Inv limits) (horderly : OrderlyRun limits m acts) :
    (m.run limits acts).Inv limits := by
  induction acts generalizing m with
  | nil => exact h
  | cons act acts ih => exact ih (h.step horderly.1) horderly.2

theorem inv_start (limits : SpendLimits) (now : Moment) : Inv limits { now := now } where
  covered := ⟨fun _ => Nat.le_refl 0, fun _ => Nat.le_refl 0, fun _ => Nat.le_refl 0⟩
  upToDate := fun _ hjob => absurd hjob List.not_mem_nil
  quiet := fun hne => absurd rfl hne

/-- What the ledger says has been spent, on the day and in the month of a moment. -/
def ledgerTotals (limits : SpendLimits) (m : Metering) (at_ : Moment) : SpendTotals where
  day := ledgerCost m.ledger (·.createdAt.utcDay = at_.utcDay)
  month := ledgerCost m.ledger (·.createdAt.utcMonth = at_.utcMonth)
  providers := fun provider => m.since limits.creditStart (·.provider = provider)

theorem Covered.le (h : m.Covered limits) (at_ : Moment) :
    (ledgerTotals limits m at_).Le (m.store.totals at_) where
  day := Nat.le_trans (Nat.le_add_right _ _) (h.day at_.utcDay)
  month := Nat.le_trans (Nat.le_add_right _ _) (h.month at_.utcMonth)
  providers := fun provider => Nat.le_trans (Nat.le_add_right _ _) (h.providers provider)

end Metering

open Metering

/-- **The counters cover the ledger** in every state of an orderly run, for every day, month and
provider, and what the ledger would refuse the gate refuses. -/
theorem counters_cover_ledger (limits : SpendLimits) (start : Moment) (acts : List MeterAct)
    (horderly : OrderlyRun limits { now := start } acts) (at_ : Moment) :
    let m := run limits { now := start } acts
    (ledgerTotals limits m at_).Le (m.store.totals at_) ∧
      ∀ killSwitchOn creditOut,
        limits.appBlock killSwitchOn creditOut (ledgerTotals limits m at_) ≠ none →
          limits.appBlock killSwitchOn creditOut (m.store.totals at_) ≠ none := by
  intro m
  have hle := (run_inv (inv_start limits start) horderly).covered.le at_
  exact ⟨hle, fun killSwitchOn creditOut => SpendLimits.appBlock_mono hle⟩

/-! ## A count between the read and the reset -/

/-- Noon on 1 October 2026. -/
def octoberNoon : Moment := ⟨739890 * day + 12 * hour, by decide, by decide⟩

/-- A cap of one dollar a day. -/
def oneDollar : SpendLimits := { dailyUsd := 100000000, monthlyUsd := 1000000000 }

/-- A reconciliation after a call is in the ledger. -/
theorem reconcile_after_call :
    (ledgerTotals oneDollar (run oneDollar { now := octoberNoon }
      [.count "anthropic" 150000000, .record 0, .reconcile, .advance 0, .advance 0, .advance 0,
        .advance 0]) octoberNoon).Le
    ((run oneDollar { now := octoberNoon }
      [.count "anthropic" 150000000, .record 0, .reconcile, .advance 0, .advance 0, .advance 0,
        .advance 0]).store.totals octoberNoon) := by
  exact (counters_cover_ledger oneDollar octoberNoon _ (by decide +kernel) octoberNoon).1

/-- **A lost count**: a call is counted between the reads and the reset of a reconciliation, and its
row comes after; all is done, and the gate admits what the ledger would refuse. -/
theorem count_lost_in_reset :
    let m := run oneDollar { now := octoberNoon }
      [.reconcile, .advance 0, .advance 0, .advance 0, .count "anthropic" 150000000, .advance 0,
        .record 0]
    (m.pending = [] ∧ m.jobs.length = 0) ∧
      oneDollar.appBlock false (fun _ => false) (m.store.totals octoberNoon) = none ∧
      oneDollar.appBlock false (fun _ => false) (ledgerTotals oneDollar m octoberNoon) ≠ none := by
  decide +kernel

end SecondMind
