import Mathlib.Tactic.Linarith
import Mathlib.Tactic.Positivity
import Mathlib.Tactic.Ring

/-!
# The token buckets of the HTTP rate limiter

`allow` refills the bucket of a key for the time since its last call and takes one token. Buckets
that have been idle for ten minutes are dropped, and a key without a bucket starts with a full one.
-/

namespace NostrMash.RateLimit

def bucketSweepInterval : ℤ := 60 * 1000000000

def bucketIdleEviction : ℤ := 600 * 1000000000

def seconds (d : ℤ) : ℚ := d / 1000000000

structure RateBucket where
  tokens : ℚ
  last : ℤ
  deriving DecidableEq

structure RateLimiter where
  buckets : String → Option RateBucket
  lastSweep : ℤ

def newRateLimiter : RateLimiter := { buckets := fun _ => none, lastSweep := 0 }

def RateLimiter.sweepLocked (l : RateLimiter) (now : ℤ) : RateLimiter :=
  if now - l.lastSweep < bucketSweepInterval then l
  else
    { lastSweep := now
      buckets := fun key => (l.buckets key).filter fun b => now - b.last < bucketIdleEviction }

/-- A missing bucket has the zero time. -/
def refill (rpm burst now : ℤ) (bucket : Option RateBucket) : ℚ :=
  let b := bucket.getD ⟨0, 0⟩
  let b := if b.last = 0 then ⟨burst, now⟩ else b
  if 0 < seconds (now - b.last) then min (b.tokens + seconds (now - b.last) * (rpm / 60)) burst
  else b.tokens

structure Call where
  key : String
  rpm : ℤ
  burst : ℤ
  now : ℤ

/-- `allow` with a rule for the buckets that are dropped before a call. -/
def allowWith (sweep : RateLimiter → ℤ → RateLimiter) (l : RateLimiter) (c : Call) :
    Bool × RateLimiter :=
  if c.rpm ≤ 0 then (true, l)
  else
    let burst := if c.burst ≤ 0 then 1 else c.burst
    let l := sweep l c.now
    let tokens := refill c.rpm burst c.now (l.buckets c.key)
    let put (tokens : ℚ) : RateLimiter :=
      { l with buckets := Function.update l.buckets c.key (some ⟨tokens, c.now⟩) }
    if tokens < 1 then (false, put tokens) else (true, put (tokens - 1))

def allow : RateLimiter → Call → Bool × RateLimiter := allowWith RateLimiter.sweepLocked

def allowUnevicted : RateLimiter → Call → Bool × RateLimiter := allowWith fun l _ => l

def outcomes (serve : RateLimiter → Call → Bool × RateLimiter) (key : String) :
    RateLimiter → List Call → List (ℤ × Bool)
  | _, [] => []
  | l, c :: calls =>
    (if c.key = key then [(c.now, (serve l c).1)] else []) ++
      outcomes serve key (serve l c).2 calls

def admittedIn (first last : ℤ) (outs : List (ℤ × Bool)) : ℕ :=
  outs.countP fun o => o.2 && decide (first ≤ o.1 ∧ o.1 ≤ last)

section
variable {rpm burst t now : ℤ} {b b' : Option RateBucket} {x : RateBucket}

def Sound (burst t : ℤ) (b : Option RateBucket) : Prop :=
  ∀ x ∈ b, 0 ≤ x.tokens ∧ x.tokens ≤ burst ∧ 0 < x.last ∧ x.last ≤ t

theorem refill_none : refill rpm burst now none = burst := by
  simp [refill, seconds]

theorem refill_some (h : 0 < x.last) : refill rpm burst now (some x) =
      if x.last < now then min (x.tokens + seconds (now - x.last) * (rpm / 60)) burst
      else x.tokens := by
  have hpos : 0 < seconds (now - x.last) ↔ x.last < now := by simp [seconds]
  simp [refill, h.ne', hpos]

theorem seconds_mono {d d' : ℤ} (h : d ≤ d') : seconds d ≤ seconds d' := by
  have hcast : (d : ℚ) ≤ d' := by exact_mod_cast h
  simp only [seconds]
  linarith

theorem rate_nonneg (hrpm : 1 ≤ rpm) : (0 : ℚ) ≤ rpm / 60 := by
  have hcast : (1 : ℚ) ≤ rpm := by exact_mod_cast hrpm
  linarith

theorem refill_le (h : 0 < x.last) (hnow : x.last ≤ now) :
    refill rpm burst now (some x) ≤ x.tokens + seconds (now - x.last) * (rpm / 60) := by
  rw [refill_some h]
  split_ifs with hlt
  · exact min_le_left _ _
  · have hzero : now - x.last = 0 := by omega
    simp [hzero, seconds]

theorem sound_refill (hrpm : 1 ≤ rpm) (hburst : 1 ≤ burst) (h : Sound burst t b) (now : ℤ) :
    0 ≤ refill rpm burst now b ∧ refill rpm burst now b ≤ burst := by
  have hcast : (1 : ℚ) ≤ burst := by exact_mod_cast hburst
  cases b with
  | none =>
    rw [refill_none]
    exact ⟨by linarith, le_rfl⟩
  | some x =>
    obtain ⟨h0, hfull, hlast, hle⟩ := h x rfl
    rw [refill_some hlast]
    split_ifs with hlt
    · have helapsed : 0 ≤ seconds (now - x.last) := by
        have := seconds_mono (by omega : (0 : ℤ) ≤ now - x.last)
        simpa [seconds] using this
      have := mul_nonneg helapsed (rate_nonneg hrpm)
      exact ⟨le_min (by linarith) (by linarith), min_le_right _ _⟩
    · exact ⟨h0, hfull⟩

theorem refill_idle (hrpm : 1 ≤ rpm) (hfit : burst ≤ 10 * rpm) (h0 : 0 ≤ x.tokens)
    (hlast : 0 < x.last) (hidle : x.last + bucketIdleEviction ≤ now) :
    refill rpm burst now (some x) = burst := by
  unfold bucketIdleEviction at hidle
  rw [refill_some hlast, if_pos (by omega)]
  refine min_eq_right ?_
  have hfit' : (burst : ℚ) ≤ 10 * rpm := by exact_mod_cast hfit
  have helapsed := seconds_mono (by omega : (600 * 1000000000 : ℤ) ≤ now - x.last)
  have hten : seconds (600 * 1000000000) = 600 := by norm_num [seconds]
  have := mul_le_mul_of_nonneg_right (hten ▸ helapsed) (rate_nonneg hrpm)
  linarith

structure Tracks (burst t : ℤ) (b b' : Option RateBucket) : Prop where
  sound : Sound burst t b'
  same : b = b' ∨ b = none ∧ ∃ x ∈ b', x.last + bucketIdleEviction ≤ t

theorem Tracks.refill_eq (hrpm : 1 ≤ rpm) (hfit : burst ≤ 10 * rpm) (h : Tracks burst t b b')
    (ht : t ≤ now) : refill rpm burst now b = refill rpm burst now b' := by
  rcases h.same with rfl | ⟨rfl, x, hx, hidle⟩
  · rfl
  · obtain ⟨h0, -, hlast, -⟩ := h.sound x hx
    rw [Option.mem_def.mp hx, refill_none, refill_idle hrpm hfit h0 hlast (by omega)]

theorem Tracks.mono (h : Tracks burst t b b') (ht : t ≤ now) : Tracks burst now b b' := by
  refine ⟨fun x hx => ?_, h.same.imp_right ?_⟩
  · obtain ⟨h0, hfull, hlast, hle⟩ := h.sound x hx
    exact ⟨h0, hfull, hlast, hle.trans ht⟩
  · rintro ⟨hnone, x, hx, hidle⟩
    exact ⟨hnone, x, hx, hidle.trans ht⟩

theorem Tracks.sweep (h : Tracks burst now b b') :
    Tracks burst now (b.filter fun x => now - x.last < bucketIdleEviction) b' := by
  refine ⟨h.sound, ?_⟩
  rcases h.same with rfl | ⟨rfl, hidle⟩
  · cases b with
    | none => exact .inl rfl
    | some x =>
      by_cases hx : now - x.last < bucketIdleEviction
      · exact .inl (by simp [hx])
      · exact .inr ⟨by simpa using hx, x, rfl, by omega⟩
  · exact .inr ⟨rfl, hidle⟩

end

section
variable {key : String} {rpm burst t : ℤ} {l u : RateLimiter} {c : Call}
  {sweep : RateLimiter → ℤ → RateLimiter}

theorem allowWith_ne (hne : c.key ≠ key) (hrpm : ¬ c.rpm ≤ 0) :
    (allowWith sweep l c).2.buckets key = (sweep l c.now).buckets key := by
  simp only [allowWith, if_neg hrpm]
  split_ifs <;> exact Function.update_of_ne hne.symm _ _

def spent (tokens : ℚ) : ℚ := if tokens < 1 then tokens else tokens - 1

theorem allowWith_self (hkey : c.key = key) (hrpm : 1 ≤ c.rpm) (hburst : 1 ≤ c.burst) :
    (allowWith sweep l c).1 =
        decide (1 ≤ refill c.rpm c.burst c.now ((sweep l c.now).buckets key)) ∧
      (allowWith sweep l c).2.buckets key =
        some ⟨spent (refill c.rpm c.burst c.now ((sweep l c.now).buckets key)), c.now⟩ := by
  subst hkey
  rw [allowWith, if_neg (by omega), if_neg (by omega : ¬ c.burst ≤ 0)]
  by_cases hlt : refill c.rpm c.burst c.now ((sweep l c.now).buckets c.key) < 1
  · simp [hlt, spent]
  · simp [hlt, spent, not_lt.mp hlt]

theorem Tracks.sweepLocked (h : Tracks burst t (l.buckets key) (u.buckets key)) {now : ℤ}
    (ht : t ≤ now) : Tracks burst now ((l.sweepLocked now).buckets key) (u.buckets key) := by
  unfold RateLimiter.sweepLocked
  split_ifs
  · exact h.mono ht
  · exact (h.mono ht).sweep

/-- What the calls for the key have to be like. -/
def Call.For (c : Call) (key : String) (rpm burst : ℤ) : Prop :=
  c.key = key → c.rpm = rpm ∧ c.burst = burst

theorem Tracks.call (hrpm : 1 ≤ rpm) (hburst : 1 ≤ burst) (hfit : burst ≤ 10 * rpm)
    (h : Tracks burst t (l.buckets key) (u.buckets key)) (ht : t ≤ c.now) (hpos : 0 < c.now)
    (hc : c.For key rpm burst) : (c.key = key → (allow l c).1 = (allowUnevicted u c).1) ∧
      Tracks burst c.now ((allow l c).2.buckets key) ((allowUnevicted u c).2.buckets key) := by
  have hswept := h.sweepLocked ht
  by_cases hkey : c.key = key
  · obtain ⟨rfl, rfl⟩ := hc hkey
    obtain ⟨hl, hl'⟩ := @allowWith_self key l c RateLimiter.sweepLocked hkey hrpm hburst
    obtain ⟨hu, hu'⟩ := @allowWith_self key u c (fun u _ => u) hkey hrpm hburst
    rw [hswept.refill_eq hrpm hfit le_rfl] at hl hl'
    have hsame : (allow l c).1 = (allowUnevicted u c).1 := hl.trans hu.symm
    refine ⟨fun _ => hsame, ?_⟩
    have hstate : (allow l c).2.buckets key = (allowUnevicted u c).2.buckets key := by
      rw [allow, allowUnevicted, hl', hu']
    refine ⟨fun x hx => ?_, .inl hstate⟩
    obtain ⟨h0, hfull⟩ := sound_refill hrpm hburst h.sound c.now
    rw [allowUnevicted, hu'] at hx
    cases hx
    refine ⟨?_, ?_, hpos, le_rfl⟩ <;> simp only [spent] <;> split_ifs <;> linarith
  · refine ⟨fun hk => absurd hk hkey, ?_⟩
    by_cases hskip : c.rpm ≤ 0
    · simpa [allow, allowUnevicted, allowWith, hskip] using h.mono ht
    · rw [allow, allowUnevicted, allowWith_ne hkey hskip, allowWith_ne hkey hskip]
      exact hswept

end

variable {key : String} {rpm burst t first last : ℤ} {b : Option RateBucket} {l u : RateLimiter}

def allowance (rpm burst first last : ℤ) : Option RateBucket → ℚ
  | none => burst + seconds (last - first) * (rpm / 60)
  | some x =>
    if x.last < first then burst + seconds (last - first) * (rpm / 60)
    else if x.last ≤ last then x.tokens + seconds (last - x.last) * (rpm / 60)
    else 0

theorem seconds_rate_nonneg (hrpm : 1 ≤ rpm) {d : ℤ} (h : 0 ≤ d) : 0 ≤ seconds d * (rpm / 60) := by
  have hd : (0 : ℚ) ≤ d := by exact_mod_cast h
  exact mul_nonneg (div_nonneg hd (by norm_num)) (rate_nonneg hrpm)

theorem seconds_rate_add (rpm x y z : ℤ) :
    seconds (z - y) * (rpm / 60) + seconds (y - x) * (rpm / 60) =
      seconds (z - x) * ((rpm : ℚ) / 60) := by
  simp only [seconds]
  push_cast
  ring

theorem allowance_nonneg (hrpm : 1 ≤ rpm) (hburst : 1 ≤ burst) (hle : first ≤ last)
    (h : Sound burst t b) : 0 ≤ allowance rpm burst first last b := by
  have hcast : (1 : ℚ) ≤ burst := by exact_mod_cast hburst
  have hfull := @seconds_rate_nonneg rpm hrpm (last - first) (by omega)
  cases b with
  | none => exact add_nonneg (by linarith) hfull
  | some x =>
    simp only [allowance]
    split_ifs with hearly hlast
    · linarith
    · have := @seconds_rate_nonneg rpm hrpm (last - x.last) (by omega)
      linarith [(h x rfl).1]
    · exact le_rfl

theorem allowance_call (hrpm : 1 ≤ rpm) (hburst : 1 ≤ burst) (hle : first ≤ last)
    (h : Sound burst t b) {now : ℤ} (ht : t ≤ now) :
    (if 1 ≤ refill rpm burst now b ∧ first ≤ now ∧ now ≤ last then 1 else 0) +
        allowance rpm burst first last (some ⟨spent (refill rpm burst now b), now⟩) ≤
      allowance rpm burst first last b := by
  obtain ⟨-, hfull⟩ := sound_refill hrpm hburst h now
  by_cases hearly : now < first
  · have hold : allowance rpm burst first last b =
        burst + seconds (last - first) * (rpm / 60) := by
      cases b with
      | none => rfl
      | some x => exact if_pos (((h x rfl).2.2.2.trans ht).trans_lt hearly)
    rw [hold]
    simp [allowance, hearly, not_le.mpr hearly]
  by_cases hlate : last < now
  · have hnot : ¬ now < first := hearly
    simpa [allowance, hnot, not_le.mpr hlate] using allowance_nonneg hrpm hburst hle h
  have hspent : ∀ x : ℚ, (if 1 ≤ x ∧ first ≤ now ∧ now ≤ last then (1 : ℚ) else 0) + spent x = x := by
    intro x
    have hin : first ≤ now ∧ now ≤ last := ⟨not_lt.mp hearly, not_lt.mp hlate⟩
    by_cases hx : x < 1
    · simp [spent, hx, not_le.mpr hx]
    · simp [spent, hx, not_lt.mp hx, hin]
  have hnew : allowance rpm burst first last (some ⟨spent (refill rpm burst now b), now⟩) =
      spent (refill rpm burst now b) + seconds (last - now) * (rpm / 60) := by
    simp [allowance, hearly, not_lt.mp hlate]
  rw [hnew, ← add_assoc, hspent]
  have hshare := seconds_rate_add rpm first now last
  have hwait := @seconds_rate_nonneg rpm hrpm (now - first) (by omega)
  cases b with
  | none =>
    simp only [allowance]
    linarith
  | some x =>
    obtain ⟨-, -, hlast, hxt⟩ := h x rfl
    simp only [allowance]
    split_ifs with hbefore hin
    · linarith
    · have := @refill_le rpm burst now x hlast (hxt.trans ht)
      linarith [seconds_rate_add rpm x.last now last]
    · omega

theorem outcomes_spec (hrpm : 1 ≤ rpm) (hburst : 1 ≤ burst) (hfit : burst ≤ 10 * rpm)
    {calls : List Call} (hordered : calls.Pairwise fun c d => c.now ≤ d.now)
    (hcalls : ∀ c ∈ calls, t ≤ c.now ∧ 0 < c.now ∧ c.For key rpm burst)
    (h : Tracks burst t (l.buckets key) (u.buckets key)) :
    outcomes allow key l calls = outcomes allowUnevicted key u calls ∧ ∀ first last, first ≤ last →
        (admittedIn first last (outcomes allowUnevicted key u calls) : ℚ) ≤
          allowance rpm burst first last (u.buckets key) := by
  induction calls generalizing t l u with
  | nil => exact ⟨rfl, fun _ _ hle => by
      exact_mod_cast allowance_nonneg hrpm hburst hle h.sound⟩
  | cons c calls ih =>
    obtain ⟨hlater, hordered⟩ := List.pairwise_cons.mp hordered
    obtain ⟨ht, hpos, hc⟩ := hcalls c (.head _)
    obtain ⟨hsame, htracks⟩ := h.call hrpm hburst hfit ht hpos hc
    obtain ⟨hrest, hbound⟩ := ih hordered (fun d hd => ⟨hlater d hd,
      (hcalls d (.tail _ hd)).2⟩) htracks
    by_cases hkey : c.key = key
    · refine ⟨by rw [outcomes, outcomes, hrest, hsame hkey], fun first last hle => ?_⟩
      obtain ⟨rfl, rfl⟩ := hc hkey
      obtain ⟨hu, hu'⟩ := @allowWith_self key u c (fun u _ => u) hkey hrpm hburst
      have hlast := hbound first last hle
      have hcall := allowance_call hrpm hburst hle h.sound ht
      rw [show (allowUnevicted u c).2.buckets key = _ from hu'] at hlast
      rw [outcomes, if_pos hkey, show (allowUnevicted u c).1 = _ from hu, admittedIn,
        List.singleton_append, List.countP_cons]
      simp only [← Bool.decide_and, decide_eq_true_eq]
      push_cast
      exact (add_comm _ _).trans_le ((add_le_add_right hlast _).trans hcall)
    · have hbucket : (allowUnevicted u c).2.buckets key = u.buckets key := by
        by_cases hskip : c.rpm ≤ 0
        · simp [allowUnevicted, allowWith, hskip]
        · exact allowWith_ne hkey hskip
      rw [hbucket] at hbound
      simpa [outcomes, hkey] using ⟨hrest, hbound⟩

/-- With calls in the order of their times and a burst that refills within ten minutes, a client is
bounded in every interval, and eviction admits no call that the bucket would refuse. -/
theorem client_bounded (calls : List Call) (key : String) (rpm burst : ℤ) (hrpm : 1 ≤ rpm)
    (hburst : 1 ≤ burst) (hfit : burst ≤ 10 * rpm)
    (hordered : calls.Pairwise fun c d => c.now ≤ d.now)
    (hcalls : ∀ c ∈ calls, 0 < c.now ∧ c.For key rpm burst) : (∀ first last, first ≤ last →
      (admittedIn first last (outcomes allow key newRateLimiter calls) : ℚ) ≤
        burst + rpm * seconds (last - first) / 60) ∧ outcomes allow key newRateLimiter calls =
        outcomes allowUnevicted key newRateLimiter calls := by
  have htracks : Tracks burst 0 (newRateLimiter.buckets key) (newRateLimiter.buckets key) :=
    ⟨nofun, .inl rfl⟩
  obtain ⟨hsame, hbound⟩ := outcomes_spec hrpm hburst hfit hordered
    (fun c hc => ⟨(hcalls c hc).1.le, hcalls c hc⟩) htracks
  refine ⟨fun first last hle => ?_, hsame⟩
  rw [hsame]
  refine (hbound first last hle).trans_eq ?_
  simp only [allowance, newRateLimiter]
  ring

def twoCalls : List Call := [⟨"ip", 60, 2, 1⟩, ⟨"ip", 60, 2, 1000000001⟩]

theorem twoCalls_bounded :
    (admittedIn 1 1000000001 (outcomes allow "ip" newRateLimiter twoCalls) : ℚ) ≤
      (2 : ℤ) + (60 : ℤ) * seconds (1000000001 - 1) / 60 :=
  (client_bounded twoCalls "ip" 60 2 (by decide) (by decide) (by decide) (by decide)
    (by simp [twoCalls, Call.For])).1 1 1000000001 (by decide)

/-- A clock that goes back and forth refills the bucket each time. -/
theorem unordered_not_bounded : ¬ (admittedIn 1 1000000001 (outcomes allow "ip" newRateLimiter
      [⟨"ip", 60, 1, 1⟩, ⟨"ip", 60, 1, 1000000001⟩, ⟨"ip", 60, 1, 1⟩,
        ⟨"ip", 60, 1, 1000000001⟩]) : ℚ) ≤ (1 : ℤ) + (60 : ℤ) * seconds 1000000000 / 60 := by
  decide +kernel

end NostrMash.RateLimit
