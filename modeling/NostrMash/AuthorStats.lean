import NostrMash.Machine
import NostrMash.ZapReceipt
import NostrMash.ClampedCounters

/-!
# Incremental author statistics

Each event adds deltas to the daily and the hourly activity rows of its author and of the author
whom it engages with.
-/

namespace NostrMash.AuthorStats
open Counters

structure EventContent where
  pubkey : String
  kind : ℕ
  createdAt : ℤ
  tags : List Tag

inductive DailyField where
  | postCount
  | noteCount
  | replyCount
  | engagementReceived
  | engagementGiven
  | zapMsatsReceived
  deriving DecidableEq

def DailyField.all : List DailyField :=
  [.postCount, .noteCount, .replyCount, .engagementReceived, .engagementGiven, .zapMsatsReceived]

inductive HourlyField where
  | postCount
  | noteCount
  | replyCount
  | engagementReceived
  | replyReceived
  | reactionReceived
  | repostReceived
  | zapReceived
  | zapMsatsReceived
  | authoredEventCount
  deriving DecidableEq

/-- Dates are days since 1970-01-01, a Thursday. -/
structure DailyKey where
  pubkey : String
  activityDate : ℤ
  deriving DecidableEq

structure HourlyKey where
  pubkey : String
  activityDate : ℤ
  dayOfWeek : ℤ
  hourOfDay : ℤ
  deriving DecidableEq

def activityDate (createdAt : ℤ) : ℤ := createdAt / 86400

def dayOfWeek (createdAt : ℤ) : ℤ := (activityDate createdAt + 4) % 7

def hourOfDay (createdAt : ℤ) : ℤ := createdAt % 86400 / 3600

def dailyKey (pubkey : String) (createdAt : ℤ) : DailyKey :=
  { pubkey := pubkey, activityDate := activityDate createdAt }

def hourlyKey (pubkey : String) (createdAt : ℤ) : HourlyKey :=
  { pubkey := pubkey, activityDate := activityDate createdAt, dayOfWeek := dayOfWeek createdAt
    hourOfDay := hourOfDay createdAt }

def counts {F : Type} [DecidableEq F] (named : List (F × ℤ)) (f : F) : ℤ :=
  (named.lookup f).getD 0

@[simp] theorem counts_nil {F : Type} [DecidableEq F] (f : F) : counts [] f = 0 := rfl

@[simp] theorem counts_cons {F : Type} [DecidableEq F] (g : F) (n : ℤ) (named : List (F × ℤ))
    (f : F) : counts ((g, n) :: named) f = if f = g then n else counts named f := by
  by_cases h : f = g
  · simp [counts, h]
  · simp [counts, List.lookup_cons, h, beq_eq_false_iff_ne.mpr h]

theorem counts_nonneg {F : Type} [DecidableEq F] {named : List (F × ℤ)}
    (h : ∀ p ∈ named, 0 ≤ p.2) (f : F) : 0 ≤ counts named f := by
  induction named with
  | nil => rfl
  | cons p named ih =>
    rw [counts_cons]
    split_ifs
    · exact h p (.head _)
    · exact ih fun q hq => h q (.tail _ hq)

section
variable (reader : RequestReader) (lookup : String → Option String) (e : EventContent)

def replyTarget : String := replyParentEventID (deriveETagReferences e.tags)

def engagedAuthor (target : String) : Option String :=
  if target = "" then none else (lookup target).filter fun p => p ≠ "" ∧ p ≠ e.pubkey

def dailyPost : List (DailyField × ℤ) :=
  [(.postCount, 1), (if replyTarget e ≠ "" then .replyCount else .noteCount, 1)]

def hourlyPost : List (HourlyField × ℤ) :=
  [(.authoredEventCount, 1), (.postCount, 1),
    (if replyTarget e ≠ "" then .replyCount else .noteCount, 1)]

def computeActivityDailyDeltas : List (Delta DailyKey DailyField) :=
  if e.kind = 1 then
    match engagedAuthor lookup e (replyTarget e) with
    | none => [(dailyKey e.pubkey e.createdAt, counts (dailyPost e))]
    | some author =>
      [(dailyKey e.pubkey e.createdAt, counts (dailyPost e ++ [(.engagementGiven, 1)])),
        (dailyKey author e.createdAt, counts [(.engagementReceived, 1)])]
  else if e.kind = 6 ∨ e.kind = 7 then
    match engagedAuthor lookup e (firstReferencedEventID e.tags) with
    | none => []
    | some author =>
      [(dailyKey e.pubkey e.createdAt, counts [(.engagementGiven, 1)]),
        (dailyKey author e.createdAt, counts [(.engagementReceived, 1)])]
  else if e.kind = 9735 then
    let sender := zapReceiptSender reader e.pubkey e.tags
    let receiver := firstTagValue e.tags "p"
    if receiver = "" ∨ receiver = sender then []
    else
      [(dailyKey sender e.createdAt, counts [(.engagementGiven, 1)]),
        (dailyKey receiver e.createdAt,
          counts [(.engagementReceived, 1), (.zapMsatsReceived, zapMsats reader e.tags)])]
  else []

def computeHourlyActivityDeltas : List (Delta HourlyKey HourlyField) :=
  let author := hourlyKey e.pubkey e.createdAt
  if e.kind = 1 then
    (author, counts (hourlyPost e)) ::
      match engagedAuthor lookup e (replyTarget e) with
      | none => []
      | some target =>
        [(hourlyKey target e.createdAt, counts [(.engagementReceived, 1), (.replyReceived, 1)])]
  else if e.kind = 6 ∨ e.kind = 7 then
    (author, counts [(.authoredEventCount, 1)]) ::
      match engagedAuthor lookup e (firstReferencedEventID e.tags) with
      | none => []
      | some target =>
        [(hourlyKey target e.createdAt, counts [(.engagementReceived, 1),
          (if e.kind = 7 then .reactionReceived else .repostReceived, 1)])]
  else if e.kind = 9735 then
    let sender := zapReceiptSender reader e.pubkey e.tags
    let receiver := firstTagValue e.tags "p"
    (author, counts [(.authoredEventCount, 1)]) ::
      if receiver = "" ∨ receiver = sender then []
      else
        [(hourlyKey receiver e.createdAt, counts [(.engagementReceived, 1), (.zapReceived, 1),
          (.zapMsatsReceived, zapMsats reader e.tags)])]
  else [(author, counts [(.authoredEventCount, 1)])]

def zapReceiver : Option String :=
  let receiver := firstTagValue e.tags "p"
  if e.kind = 9735 ∧ receiver ≠ "" ∧ receiver ≠ zapReceiptSender reader e.pubkey e.tags then
    some receiver
  else none

/-- The author whom a reply, repost or reaction engages with. -/
def engaged : Option String :=
  if e.kind = 1 then engagedAuthor lookup e (replyTarget e)
  else if e.kind = 6 ∨ e.kind = 7 then engagedAuthor lookup e (firstReferencedEventID e.tags)
  else none

end

/-- A projection: its deltas, and the deltas that its upsert skips. -/
structure Projection (reader : RequestReader) (K F : Type) where
  deltas : (String → Option String) → EventContent → List (Delta K F)
  skips : Delta K F → Bool
  skips_negate : ∀ d : Delta K F, skips (d.1, fun f => -d.2 f) = skips d
  deltas_congr : ∀ lookup lookup' e, engaged lookup e = engaged lookup' e →
    deltas lookup e = deltas lookup' e
  deltas_nonneg : ∀ lookup e, ((zapReceiver reader e).isSome → 0 ≤ zapMsats reader e.tags) →
    NonNeg (deltas lookup e)

variable (reader : RequestReader)

theorem nonneg_nil {K F : Type} : NonNeg ([] : List (Delta K F)) := nofun

theorem nonneg_cons {K F : Type} [DecidableEq F] {k : K} {named : List (F × ℤ)}
    {ds : List (Delta K F)} (h : ∀ p ∈ named, 0 ≤ p.2) (hds : NonNeg ds) :
    NonNeg ((k, counts named) :: ds) := by
  intro d hd
  rcases List.mem_cons.mp hd with rfl | hd
  · exact counts_nonneg h
  · exact hds d hd

variable {reader} in
theorem zapReceiver_isSome {e : EventContent} (hz : e.kind = 9735)
    (h : ¬ (firstTagValue e.tags "p" = "" ∨
      firstTagValue e.tags "p" = zapReceiptSender reader e.pubkey e.tags)) :
    (zapReceiver reader e).isSome := by
  rw [not_or] at h
  simp [zapReceiver, hz, h.1, h.2]

theorem computeActivityDailyDeltas_nonneg (lookup : String → Option String) (e : EventContent)
    (h : (zapReceiver reader e).isSome → 0 ≤ zapMsats reader e.tags) :
    NonNeg (computeActivityDailyDeltas reader lookup e) := by
  by_cases h1 : e.kind = 1
  · rw [computeActivityDailyDeltas, if_pos h1]
    split
    · exact nonneg_cons (by simp [dailyPost]) nonneg_nil
    · exact nonneg_cons (by simp [dailyPost]) (nonneg_cons (by simp) nonneg_nil)
  by_cases h6 : e.kind = 6 ∨ e.kind = 7
  · rw [computeActivityDailyDeltas, if_neg h1, if_pos h6]
    split
    · exact nonneg_nil
    · exact nonneg_cons (by simp) (nonneg_cons (by simp) nonneg_nil)
  by_cases hz : e.kind = 9735
  · rw [computeActivityDailyDeltas, if_neg h1, if_neg h6, if_pos hz]
    dsimp only
    split_ifs with hself
    · exact nonneg_nil
    · have hmsats := h (zapReceiver_isSome hz hself)
      exact nonneg_cons (by simp) (nonneg_cons (by simpa using hmsats) nonneg_nil)
  · rw [computeActivityDailyDeltas, if_neg h1, if_neg h6, if_neg hz]
    exact nonneg_nil

theorem computeHourlyActivityDeltas_nonneg (lookup : String → Option String) (e : EventContent)
    (h : (zapReceiver reader e).isSome → 0 ≤ zapMsats reader e.tags) :
    NonNeg (computeHourlyActivityDeltas reader lookup e) := by
  by_cases h1 : e.kind = 1
  · rw [computeHourlyActivityDeltas, if_pos h1]
    refine nonneg_cons (by simp [hourlyPost]) ?_
    split
    · exact nonneg_nil
    · exact nonneg_cons (by simp) nonneg_nil
  by_cases h6 : e.kind = 6 ∨ e.kind = 7
  · rw [computeHourlyActivityDeltas, if_neg h1, if_pos h6]
    refine nonneg_cons (by simp) ?_
    split
    · exact nonneg_nil
    · exact nonneg_cons (by simp) nonneg_nil
  by_cases hz : e.kind = 9735
  · rw [computeHourlyActivityDeltas, if_neg h1, if_neg h6, if_pos hz]
    refine nonneg_cons (by simp) ?_
    split_ifs with hself
    · exact nonneg_nil
    · have hmsats := h (zapReceiver_isSome hz hself)
      exact nonneg_cons (by simpa using hmsats) nonneg_nil
  · rw [computeHourlyActivityDeltas, if_neg h1, if_neg h6, if_neg hz]
    exact nonneg_cons (by simp) nonneg_nil

theorem computeActivityDailyDeltas_congr {lookup lookup' : String → Option String}
    {e : EventContent} (h : engaged lookup e = engaged lookup' e) :
    computeActivityDailyDeltas reader lookup e = computeActivityDailyDeltas reader lookup' e := by
  by_cases h1 : e.kind = 1
  · simp only [engaged, h1, if_true] at h
    simp only [computeActivityDailyDeltas, h1, if_true, h]
  · by_cases h6 : e.kind = 6 ∨ e.kind = 7
    · simp only [engaged, h1, h6, if_true, if_false] at h
      simp only [computeActivityDailyDeltas, h1, h6, if_true, if_false, h]
    · simp only [computeActivityDailyDeltas, h1, h6, if_false]

theorem computeHourlyActivityDeltas_congr {lookup lookup' : String → Option String}
    {e : EventContent} (h : engaged lookup e = engaged lookup' e) :
    computeHourlyActivityDeltas reader lookup e = computeHourlyActivityDeltas reader lookup' e := by
  by_cases h1 : e.kind = 1
  · simp only [engaged, h1, if_true] at h
    simp only [computeHourlyActivityDeltas, h1, if_true, h]
  · by_cases h6 : e.kind = 6 ∨ e.kind = 7
    · simp only [engaged, h1, h6, if_true, if_false] at h
      simp only [computeHourlyActivityDeltas, h1, h6, if_true, if_false, h]
    · simp only [computeHourlyActivityDeltas, h1, h6, if_false]

def daily : Projection reader DailyKey DailyField where
  deltas := computeActivityDailyDeltas reader
  skips d := d.1.pubkey = "" || DailyField.all.all fun f => d.2 f = 0
  skips_negate d := by simp
  deltas_congr _ _ _ h := computeActivityDailyDeltas_congr reader h
  deltas_nonneg := computeActivityDailyDeltas_nonneg reader

def hourly : Projection reader HourlyKey HourlyField where
  deltas := computeHourlyActivityDeltas reader
  skips d := d.1.pubkey = ""
  skips_negate _ := rfl
  deltas_congr _ _ _ h := computeHourlyActivityDeltas_congr reader h
  deltas_nonneg := computeHourlyActivityDeltas_nonneg reader

end NostrMash.AuthorStats
